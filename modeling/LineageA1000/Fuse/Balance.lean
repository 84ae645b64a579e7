import LineageA1000.Fuse.Census

/-!
# What the locked functions do to a balanced graph

A graph is balanced over `refs` when its child lists are in order and each count is `refs` and the
children together. Each function of the daemon that changes the graph is given the one statement its
callers need: the graph it leaves is balanced, and over which references.
-/

namespace LineageA1000.Fuse

def Balanced (g : Graph) (refs : NodeId → Nat) : Prop :=
  ∃ kids, Linked g [] kids ∧ Counted g [] kids refs

variable {g g' : Graph} {refs : NodeId → Nat} {n p : NodeId} {node pnode : Node}

theorem Balanced.live (h : Balanced g refs) (hrefs : 0 < refs n) : ∃ node, g n = some node := by
  obtain ⟨kids, -, hcounted⟩ := h
  exact hcounted.live hrefs

/-- A node has a parent that is there. -/
theorem Balanced.parent_live (h : Balanced g refs) (hn : g n = some node)
    (hparent : node.parent = some p) : ∃ pnode, g p = some pnode := by
  obtain ⟨kids, hlinked, -⟩ := h
  have hmem : n ∈ kids p := (hlinked.mem p n).2 ⟨List.not_mem_nil, node, hn, hparent⟩
  exact hlinked.home p (List.ne_nil_of_mem hmem)

/-! ### Release and removal -/

theorem releaseNode_spec (h : Balanced g refs) (hrefs : 0 < refs n) :
    ∃ g', releaseNode n g = some g' ∧ Balanced g' (Function.update refs n (refs n - 1)) ∧
      Keeps g g' := by
  obtain ⟨kids, hlinked, hcounted⟩ := h
  obtain ⟨g', kids', hrelease, hlinked', hcounted', hkeeps, -⟩ :=
    releases_releaseNodeWithin (enough + 1) List.nodup_nil (by simp) g kids refs n hlinked hcounted
      (List.forall_mem_nil _) hrefs fun hmem => absurd hmem List.not_mem_nil
  exact ⟨g', hrelease, ⟨kids', hlinked', hcounted'⟩, hkeeps⟩

theorem Counted.of_limbo {kids : NodeId → List NodeId} (h : Counted g [n] kids refs)
    (hrefs : 0 < refs n) : Counted g [] kids refs := by
  refine ⟨h.count, fun m node hm _ => ?_, h.dead⟩
  by_cases hmn : m = n
  · subst hmn
    rw [h.count m node hm]
    omega
  · exact h.pos m node hm fun hmem => hmn (List.mem_singleton.1 hmem)

theorem removeNodeFromParent_spec (h : Balanced g refs) (hn : g n = some node)
    (hrefs : 0 < refs n) :
    ∃ g', removeNodeFromParent n g = some g' ∧ Balanced g' refs ∧
      Keeps (g.set n { node with parent := none }) g' := by
  obtain ⟨kids, hlinked, hcounted⟩ := h
  have hrelease : Releases releaseNode [n] :=
    releases_releaseNodeWithin (enough + 1) (List.nodup_singleton n) (by
      rw [List.length_singleton]
      omega)
  obtain ⟨g', kids', node', hremove, -, hlinked', hcounted', -, hkeeps, -⟩ :=
    removeNodeFromParentBy_spec hrelease hlinked (hcounted.to_limbo n)
      (List.forall_mem_singleton.2 (Or.inr hrefs)) hn List.not_mem_nil
  exact ⟨g', hremove, ⟨kids', hlinked', hcounted'.of_limbo hrefs⟩, hkeeps⟩

/-! ### Changes outside lists and counts -/

/-- A node without what `derive_permissions_locked`, the names and the marks of deletion write. -/
def Node.shape (node : Node) : Nat × Option NodeId × Option NodeId × Option NodeId :=
  (node.refcount, node.next, node.child, node.parent)

/-- Counts and lists are the same. -/
def SameShapes (g g' : Graph) : Prop := ∀ m, (g' m).map Node.shape = (g m).map Node.shape

theorem SameShapes.refl (g : Graph) : SameShapes g g := Heap.Agree.refl Node.shape g

theorem SameShapes.trans {g₁ g₂ g₃ : Graph} (h : SameShapes g₁ g₂) (h' : SameShapes g₂ g₃) :
    SameShapes g₁ g₃ := Heap.Agree.trans h h'

theorem SameShapes.set (hn : g n = some node) {node' : Node} (hshape : node'.shape = node.shape) :
    SameShapes g (g.set n node') :=
  Heap.Agree.update hn hshape

theorem SameShapes.symm (h : SameShapes g g') : SameShapes g' g := Heap.Agree.symm h

theorem SameShapes.back (h : SameShapes g g') (hn : g' n = some node) :
    ∃ old, g n = some old ∧ old.shape = node.shape :=
  Heap.Agree.back h hn

theorem SameShapes.next (h : SameShapes g g') : Heap.Agree Node.next g g' :=
  Heap.Agree.comp h fun t => t.2.1

theorem Linked.sameShapes {limbo : List NodeId} {kids : NodeId → List NodeId}
    (h : Linked g limbo kids) (hshapes : SameShapes g g') : Linked g' limbo kids :=
  h.congr (Heap.Agree.comp hshapes fun t => t.2)

theorem Balanced.congr (h : Balanced g refs) (hshapes : SameShapes g g') : Balanced g' refs := by
  obtain ⟨kids, hlinked, hcounted⟩ := h
  refine ⟨kids, hlinked.sameShapes hshapes, fun m node hm => ?_, fun m node hm hlimbo => ?_,
    fun m hm => ?_⟩
  · obtain ⟨old, hold, hshape⟩ := hshapes.back hm
    rw [← (Prod.mk.inj hshape).1]
    exact hcounted.count m old hold
  · obtain ⟨old, hold, hshape⟩ := hshapes.back hm
    rw [← (Prod.mk.inj hshape).1]
    exact hcounted.pos m old hold hlimbo
  · refine hcounted.dead m (Option.map_eq_none_iff.1 ((hshapes m).symm.trans ?_))
    rw [hm, Option.map_none]

@[simp] theorem derivePermissions_shape (cfg : Config) (packages : AppIdMap) (parent node : Node) :
    (derivePermissions cfg packages parent node).shape = node.shape := by
  rw [derivePermissions]
  repeat' split
  all_goals rfl

theorem sameShapes_deriveSiblings {cfg : Config} {packages : AppIdMap}
    {recursive : NodeId → Graph → Option Graph}
    (hrecursive : ∀ m g g', recursive m g = some g' → SameShapes g g') (p : NodeId) {fuel : Nat}
    {cur : Option NodeId} (hderive : deriveSiblings cfg packages recursive p fuel cur g = some g') :
    SameShapes g g' := by
  induction fuel generalizing g cur with
  | zero =>
      cases cur with
      | none => exact Option.some.inj hderive ▸ SameShapes.refl g
      | some n => cases hderive
  | succ fuel ih =>
      cases cur with
      | none => exact Option.some.inj hderive ▸ SameShapes.refl g
      | some n =>
          rw [deriveSiblings] at hderive
          obtain ⟨parent, hp, hderive⟩ := Option.bind_eq_some_iff.1 hderive
          obtain ⟨node, hn, hderive⟩ := Option.bind_eq_some_iff.1 hderive
          obtain ⟨g₂, hg₂, hderive⟩ := Option.bind_eq_some_iff.1 hderive
          obtain ⟨node₂, hn₂, hderive⟩ := Option.bind_eq_some_iff.1 hderive
          have hset : SameShapes g (g.set n (derivePermissions cfg packages parent node)) :=
            SameShapes.set hn (derivePermissions_shape ..)
          have hinner : SameShapes (g.set n (derivePermissions cfg packages parent node)) g₂ := by
            split at hg₂
            · exact hrecursive n _ g₂ hg₂
            · exact Option.some.inj hg₂ ▸ SameShapes.refl _
          exact (hset.trans hinner).trans (ih hderive)

theorem sameShapes_deriveWithin {cfg : Config} {packages : AppIdMap} (depth : Nat) (p : NodeId)
    (g g' : Graph) (hderive : deriveWithin cfg packages depth p g = some g') : SameShapes g g' := by
  induction depth generalizing p g g' with
  | zero => cases hderive
  | succ depth ih =>
      rw [deriveWithin] at hderive
      obtain ⟨parent, -, hderive⟩ := Option.bind_eq_some_iff.1 hderive
      exact sameShapes_deriveSiblings ih p hderive

/-! ### Acquiring and adding -/

/-- One more reference fits the 32 bits of the count. -/
def HasRoom (g : Graph) (n : NodeId) : Prop := ∀ node, g n = some node → node.refcount + 1 < 2 ^ 32

instance (g : Graph) (n : NodeId) : Decidable (HasRoom g n) :=
  inferInstanceAs (Decidable (∀ node ∈ g n, node.refcount + 1 < 2 ^ 32))

theorem acquireNode_eq (hn : g n = some node) (hroom : HasRoom g n) :
    acquireNode n g = some (g.set n { node with refcount := node.refcount + 1 }) := by
  simp only [acquireNode, hn, Option.bind_eq_bind, Option.bind_some,
    Nat.mod_eq_of_lt (hroom node hn)]

theorem Counted.acquire {limbo : List NodeId} {kids : NodeId → List NodeId}
    (h : Counted g limbo kids refs) (hn : g n = some node) :
    Counted (g.set n { node with refcount := node.refcount + 1 }) limbo kids
      (Function.update refs n (refs n + 1)) := by
  have hcount := h.count n node hn
  refine ⟨fun m mnode hm => ?_, fun m mnode hm hlimbo => ?_, fun m hm => ?_⟩ <;>
    by_cases hmn : m = n
  · subst hmn
    rw [Graph.set_self] at hm
    obtain rfl := Option.some.inj hm
    rw [Function.update_self]
    show node.refcount + 1 = _
    omega
  · rw [Graph.set_of_ne hmn] at hm
    rw [Function.update_of_ne hmn]
    exact h.count m mnode hm
  · subst hmn
    rw [Graph.set_self] at hm
    obtain rfl := Option.some.inj hm
    exact Nat.succ_pos _
  · rw [Graph.set_of_ne hmn] at hm
    exact h.pos m mnode hm hlimbo
  · subst hmn
    rw [Graph.set_self] at hm
    cases hm
  · rw [Graph.set_of_ne hmn] at hm
    rw [Function.update_of_ne hmn]
    exact h.dead m hm

theorem acquireNode_spec (h : Balanced g refs) (hn : g n = some node) (hroom : HasRoom g n) :
    ∃ g', acquireNode n g = some g' ∧ Balanced g' (Function.update refs n (refs n + 1)) ∧
      Keeps g g' := by
  obtain ⟨kids, hlinked, hcounted⟩ := h
  refine ⟨_, acquireNode_eq hn hroom, ⟨kids, hlinked.set_same hn rfl rfl rfl, hcounted.acquire hn⟩,
    Keeps.set hn rfl⟩

/-- A node without a parent joins the list of one. -/
theorem addNodeToParent_spec (h : Balanced g refs) (hn : g n = some node)
    (hparent : node.parent = none) (hp : g p = some pnode) (hroom : HasRoom g p) :
    ∃ g', addNodeToParent n p g = some g' ∧ Balanced g' refs ∧
      Keeps (g.set n { node with parent := some p }) g' := by
  obtain ⟨kids, hlinked, hcounted⟩ := h
  have hlinked₁ : Linked (g.set n { node with parent := some p, next := pnode.child }) [n] kids :=
    (hlinked.to_limbo hn hparent).set_limbo hn rfl
  have hcounted₁ : Counted (g.set n { node with parent := some p, next := pnode.child }) [] kids
      refs := hcounted.set_same hn rfl
  have hn₁ : (g.set n { node with parent := some p, next := pnode.child }) n =
      some { node with parent := some p, next := pnode.child } := Graph.set_self ..
  have hkeeps₁ : Keeps (g.set n { node with parent := some p })
      (g.set n { node with parent := some p, next := pnode.child }) := by
    rw [← Graph.set_set g n { node with parent := some p }
      { node with parent := some p, next := pnode.child }]
    exact Keeps.set (Graph.set_self ..) rfl
  have hunfold : addNodeToParent n p g =
      ((g.set n { node with parent := some p, next := pnode.child }) p).bind fun parent =>
        acquireNode p ((g.set n { node with parent := some p, next := pnode.child }).set p
          { parent with child := some n }) := by
    simp only [addNodeToParent, hn, hp, Option.bind_eq_bind, Option.bind_some]
  -- the parent may be the node itself, so it is read again
  obtain ⟨pnode₁, hp₁, hchild, hrefcount⟩ : ∃ pnode₁,
      (g.set n { node with parent := some p, next := pnode.child }) p = some pnode₁ ∧
        pnode₁.child = pnode.child ∧ pnode₁.refcount = pnode.refcount := by
    by_cases hpn : p = n
    · subst hpn
      obtain rfl : node = pnode := Option.some.inj (hn.symm.trans hp)
      exact ⟨_, Graph.set_self .., rfl, rfl⟩
    · exact ⟨pnode, (Graph.set_of_ne hpn ..).trans hp, rfl, rfl⟩
  rw [hunfold, hp₁, Option.bind_some]
  generalize g.set n { node with parent := some p, next := pnode.child } = g₁ at *
  have hroom₂ : HasRoom (g₁.set p { pnode₁ with child := some n }) p := by
    intro pnode₂ hp₂
    rw [Graph.set_self] at hp₂
    obtain rfl := Option.some.inj hp₂
    show pnode₁.refcount + 1 < 2 ^ 32
    rw [hrefcount]
    exact hroom pnode hp
  have hp₂ : (g₁.set p { pnode₁ with child := some n }) p = some { pnode₁ with child := some n } :=
    Graph.set_self ..
  have hlinked₂ := hlinked₁.join hn₁ List.not_mem_nil rfl hp₁ hchild.symm
  have hkeeps₂ : Keeps g₁ (g₁.set p { pnode₁ with child := some n }) := Keeps.set hp₁ rfl
  refine ⟨_, acquireNode_eq hp₂ hroom₂, ⟨_, hlinked₂.set_same hp₂ rfl rfl rfl, ?_⟩,
    (hkeeps₁.trans hkeeps₂).trans (Keeps.set hp₂ rfl)⟩
  -- the count goes up after the child is in the list; it might as well have before
  have hacquired : (g₁.set p { pnode₁ with refcount := pnode₁.refcount + 1 }) p =
      some { pnode₁ with refcount := pnode₁.refcount + 1 } := Graph.set_self ..
  have hbodies : SameBodies (g₁.set p { pnode₁ with refcount := pnode₁.refcount + 1 })
      ((g₁.set p { pnode₁ with refcount := pnode₁.refcount + 1 }).set p
        { pnode₁ with refcount := pnode₁.refcount + 1, child := some n }) :=
    SameBodies.set hacquired rfl
  have hcounted₂ := (hcounted₁.acquire hp₁).join (n := n) (p := p) hbodies
    (by rw [Function.update_self]; exact Nat.succ_pos _)
  rw [Graph.set_set, Function.update_self, Nat.add_sub_cancel, Function.update_idem,
    Function.update_eq_self] at hcounted₂
  rw [Graph.set_set]
  exact hcounted₂

/-- A new node is known by the one reference its creator takes. -/
theorem Balanced.insert (h : Balanced g refs) (hn : g n = none) (hrefcount : node.refcount = 1)
    (hchild : node.child = none) (hparent : node.parent = none) :
    Balanced (g.set n node) (Function.update refs n (refs n + 1)) := by
  obtain ⟨kids, hlinked, hcounted⟩ := h
  have hempty : kids n = [] := by
    by_contra hne
    obtain ⟨node', hnode'⟩ := hlinked.home n hne
    rw [hn] at hnode'
    cases hnode'
  have hout (q : NodeId) : n ∉ kids q := by
    intro hmem
    obtain ⟨-, node', hnode', -⟩ := (hlinked.mem q n).1 hmem
    rw [hn] at hnode'
    cases hnode'
  refine ⟨kids, ⟨fun p pnode hp => ?_, fun p c => ?_, fun p hp => ?_⟩,
    ⟨fun m mnode hm => ?_, fun m mnode hm _ => ?_, fun m hm => ?_⟩⟩
  · by_cases hpn : p = n
    · subst hpn
      rw [Graph.set_self] at hp
      obtain rfl := Option.some.inj hp
      rw [hempty]
      exact hchild
    · rw [Graph.set_of_ne hpn] at hp
      exact (hlinked.chain p pnode hp).update (hout p) _
  · by_cases hcn : c = n
    · subst hcn
      apply iff_of_false (hout p)
      rintro ⟨-, cnode, hc, hcparent⟩
      rw [Graph.set_self] at hc
      obtain rfl := Option.some.inj hc
      cases hparent.symm.trans hcparent
    · rw [hlinked.mem, Graph.set_of_ne hcn]
  · obtain ⟨pnode, hpnode⟩ := hlinked.home p hp
    have hpn : p ≠ n := by
      rintro rfl
      exact hp hempty
    exact ⟨pnode, (Graph.set_of_ne hpn ..).trans hpnode⟩
  · by_cases hmn : m = n
    · subst hmn
      rw [Graph.set_self] at hm
      obtain rfl := Option.some.inj hm
      rw [Function.update_self, hempty, hrefcount, hcounted.dead m hn, List.length_nil]
    · rw [Graph.set_of_ne hmn] at hm
      rw [Function.update_of_ne hmn]
      exact hcounted.count m mnode hm
  · by_cases hmn : m = n
    · subst hmn
      rw [Graph.set_self] at hm
      obtain rfl := Option.some.inj hm
      omega
    · rw [Graph.set_of_ne hmn] at hm
      exact hcounted.pos m mnode hm List.not_mem_nil
  · by_cases hmn : m = n
    · subst hmn
      rw [Graph.set_self] at hm
      cases hm
    · rw [Graph.set_of_ne hmn] at hm
      rw [Function.update_of_ne hmn]
      exact hcounted.dead m hm

end LineageA1000.Fuse
