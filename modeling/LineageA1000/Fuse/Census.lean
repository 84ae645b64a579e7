import LineageA1000.Fuse.Graph

/-!
# The child lists and the reference counts

What the locked functions keep. `Linked` names the list of children that the `child` and `next`
pointers of each node spell, and says that it holds the nodes whose `parent` it is. `Counted` says
that a node's count is the number of those children and of the references held from outside the
graph. A node that is being taken out of its parent's list stands in `limbo`: its `parent` pointer
is still set.
-/

namespace LineageA1000.Fuse

structure Linked (g : Graph) (limbo : List NodeId) (kids : NodeId → List NodeId) : Prop where
  chain : ∀ p node, g p = some node → Chain g Node.next node.child (kids p)
  mem : ∀ p c, c ∈ kids p ↔ c ∉ limbo ∧ ∃ node, g c = some node ∧ node.parent = some p
  home : ∀ p, kids p ≠ [] → ∃ node, g p = some node

structure Counted (g : Graph) (limbo : List NodeId) (kids : NodeId → List NodeId)
    (refs : NodeId → Nat) : Prop where
  count : ∀ n node, g n = some node → node.refcount = refs n + (kids n).length
  pos : ∀ n node, g n = some node → n ∉ limbo → 0 < node.refcount
  dead : ∀ n, g n = none → refs n = 0

/-- A node without what the operations on lists and counts write. -/
def Node.core (node : Node) : Node := { node with refcount := 0, next := none, child := none }

/-- Some nodes may be gone; the others kept what is not list or count. -/
def Keeps (g g' : Graph) : Prop :=
  ∀ m node', g' m = some node' → ∃ node, g m = some node ∧ node'.core = node.core

theorem Keeps.refl (g : Graph) : Keeps g g := Heap.Thins.refl Node.core g

theorem Keeps.trans {g₁ g₂ g₃ : Graph} (h : Keeps g₁ g₂) (h' : Keeps g₂ g₃) : Keeps g₁ g₃ :=
  Heap.Thins.trans h h'

theorem Keeps.set {g : Graph} {n : NodeId} {node node' : Node} (hn : g n = some node)
    (hcore : node'.core = node.core) : Keeps g (g.set n node') :=
  (Heap.Agree.update hn hcore).thins

theorem core_parent {a b : Node} (h : a.core = b.core) : a.parent = b.parent := by
  show a.core.parent = b.core.parent
  rw [h]

variable {g g' : Graph} {limbo : List NodeId} {kids : NodeId → List NodeId} {refs : NodeId → Nat}
  {n p : NodeId} {node : Node}

/-! ### Changes that leave the lists alone -/

theorem Linked.congr (h : Linked g limbo kids)
    (heq : ∀ m, (g' m).map (fun node => (node.next, node.child, node.parent)) =
      (g m).map fun node => (node.next, node.child, node.parent)) : Linked g' limbo kids := by
  have hagree : Heap.Agree (fun node => (node.next, node.child, node.parent)) g g' := heq
  have hnext : Heap.Agree Node.next g g' := hagree.comp Prod.fst
  refine ⟨fun p node' hp => ?_, fun p c => ?_, fun p hp => ?_⟩
  · obtain ⟨node, hnode, hsame⟩ := hagree.back hp
    obtain ⟨-, hsame⟩ := Prod.mk.inj hsame
    rw [← (Prod.mk.inj hsame).1]
    exact (h.chain p node hnode).congr fun b _ => hnext b
  · rw [h.mem]
    apply and_congr_right'
    constructor
    · intro ⟨node, hnode, hparent⟩
      obtain ⟨node', hnode', hsame⟩ := hagree.symm.back hnode
      exact ⟨node', hnode', (congrArg (fun t => t.2.2) hsame).trans hparent⟩
    · intro ⟨node', hnode', hparent⟩
      obtain ⟨node, hnode, hsame⟩ := hagree.back hnode'
      exact ⟨node, hnode, (congrArg (fun t => t.2.2) hsame).trans hparent⟩
  · obtain ⟨node, hnode⟩ := h.home p hp
    obtain ⟨node', hnode', -⟩ := hagree.symm.back hnode
    exact ⟨node', hnode'⟩

theorem Linked.set_same (h : Linked g limbo kids) (hn : g n = some node) {node' : Node}
    (hnext : node'.next = node.next) (hchild : node'.child = node.child)
    (hparent : node'.parent = node.parent) : Linked (g.set n node') limbo kids := by
  apply h.congr
  intro m
  by_cases hm : m = n
  · subst hm
    rw [Graph.set_self, hn, Option.map_some, Option.map_some, hnext, hchild, hparent]
  · rw [Graph.set_of_ne hm]

theorem Linked.not_mem_of_limbo (h : Linked g limbo kids) (hn : n ∈ limbo) (p : NodeId) :
    n ∉ kids p := fun hmem => ((h.mem p n).1 hmem).1 hn

theorem Linked.not_mem_of_parent (h : Linked g limbo kids) (hn : g n = some node)
    (hparent : node.parent ≠ some p) : n ∉ kids p := by
  intro hmem
  obtain ⟨-, node', hnode', hp⟩ := (h.mem p n).1 hmem
  rw [hn] at hnode'
  exact hparent (Option.some.inj hnode' ▸ hp)

theorem Linked.length_le (h : Linked g limbo kids) (hp : g p = some node) :
    (kids p).length ≤ enough :=
  (h.chain p node hp).length_le.trans (Fintype.card_fin _).le

/-! ### Taking a node out of its list -/

/-- A node without its list pointers. -/
def Node.body (node : Node) : Node := { node with next := none, child := none }

/-- Nothing changes but list pointers. -/
def SameBodies (g g' : Graph) : Prop := ∀ m, (g' m).map Node.body = (g m).map Node.body

theorem SameBodies.back (h : SameBodies g g') {m : NodeId} {node' : Node} (hm : g' m = some node') :
    ∃ node, g m = some node ∧ node.body = node'.body :=
  Heap.Agree.back h hm

theorem SameBodies.symm (h : SameBodies g g') : SameBodies g' g := Heap.Agree.symm h

theorem SameBodies.set (hn : g n = some node) {node' : Node} (hbody : node'.body = node.body) :
    SameBodies g (g.set n node') :=
  Heap.Agree.update hn hbody

theorem body_parent {a b : Node} (h : a.body = b.body) : a.parent = b.parent := by
  show a.body.parent = b.body.parent
  rw [h]

theorem body_refcount {a b : Node} (h : a.body = b.body) : a.refcount = b.refcount := by
  show a.body.refcount = b.body.refcount
  rw [h]

theorem body_core {a b : Node} (h : a.body = b.body) : a.core = b.core := by
  show ({ a.body with refcount := 0 } : Node) = { b.body with refcount := 0 }
  rw [h]

theorem SameBodies.keeps (h : SameBodies g g') : Keeps g g' := by
  intro m node' hm
  obtain ⟨node, hnode, hbody⟩ := h.back hm
  exact ⟨node, hnode, (body_core hbody).symm⟩

theorem SameBodies.parent_iff (h : SameBodies g g') (c q : NodeId) :
    (∃ node, g' c = some node ∧ node.parent = some q) ↔
      ∃ node, g c = some node ∧ node.parent = some q := by
  constructor
  · intro ⟨node', hnode', hparent⟩
    obtain ⟨node, hnode, hbody⟩ := h.back hnode'
    exact ⟨node, hnode, (body_parent hbody).trans hparent⟩
  · intro ⟨node, hnode, hparent⟩
    obtain ⟨node', hnode', hbody⟩ := h.symm.back hnode
    exact ⟨node', hnode', (body_parent hbody).trans hparent⟩

/-- The lists after a node has left the one of its parent. -/
theorem Linked.leave (h : Linked g limbo kids) (hn : g n = some node) (hlimbo : n ∉ limbo)
    (hparent : node.parent = some p) (hbodies : SameBodies g g')
    (hchain : ∀ q node', g' q = some node' →
      Chain g' Node.next node'.child (Function.update kids p ((kids p).erase n) q)) :
    Linked g' (n :: limbo) (Function.update kids p ((kids p).erase n)) := by
  have hnp : n ∈ kids p := (h.mem p n).2 ⟨hlimbo, node, hn, hparent⟩
  obtain ⟨pnode, hp⟩ := h.home p (List.ne_nil_of_mem hnp)
  refine ⟨hchain, fun q c => ?_, fun q hq => ?_⟩
  · rw [hbodies.parent_iff, List.mem_cons, not_or, and_assoc, ← h.mem]
    by_cases hqp : q = p
    · subst hqp
      rw [Function.update_self, (h.chain q pnode hp).nodup.mem_erase_iff]
    · rw [Function.update_of_ne hqp]
      refine (and_iff_right_of_imp ?_).symm
      rintro hc rfl
      refine h.not_mem_of_parent hn ?_ hc
      rw [hparent]
      exact fun heq => hqp (Option.some.inj heq).symm
  · have hold : kids q ≠ [] := by
      by_cases hqp : q = p
      · subst hqp
        exact List.ne_nil_of_mem hnp
      · rwa [Function.update_of_ne hqp] at hq
    obtain ⟨qnode, hqnode⟩ := h.home q hold
    obtain ⟨qnode', hqnode', -⟩ := hbodies.symm.back hqnode
    exact ⟨qnode', hqnode'⟩

/-- The list of the parent loses the node and nothing else changes but list pointers. -/
theorem unlinkSibling_spec (h : Linked g limbo kids) (hn : g n = some node) (hlimbo : n ∉ limbo)
    (hparent : node.parent = some p) :
    ∃ g', unlinkSibling n p g = some g' ∧
      Linked g' (n :: limbo) (Function.update kids p ((kids p).erase n)) ∧
      SameBodies g g' ∧ ∀ m, m ∉ kids p → m ≠ p → g' m = g m := by
  have hnp : n ∈ kids p := (h.mem p n).2 ⟨hlimbo, node, hn, hparent⟩
  obtain ⟨pnode, hp⟩ := h.home p (List.ne_nil_of_mem hnp)
  have hchain := h.chain p pnode hp
  have hunlink : unlinkSibling n p g =
      if pnode.child = some n then some (g.set p { pnode with child := node.next })
      else (Chain.prevFrom g Node.next n enough pnode.child).bind fun node2 =>
        (g node2).bind fun prev => some (g.set node2 { prev with next := node.next }) := by
    simp only [unlinkSibling, hn, hp, Option.bind_eq_bind, Option.bind_some]
  by_cases hhead : pnode.child = some n
  · -- the node is the first of the list
    rw [hunlink, if_pos hhead]
    have hbodies : SameBodies g (g.set p { pnode with child := node.next }) :=
      SameBodies.set hp rfl
    refine ⟨_, rfl, h.leave hn hlimbo hparent hbodies fun q node' hq => ?_, hbodies,
      fun m _ hm => Graph.set_of_ne hm ..⟩
    by_cases hqp : q = p
    · subst hqp
      rw [Graph.set_self] at hq
      obtain rfl := Option.some.inj hq
      rw [Function.update_self]
      obtain ⟨c, l, hl⟩ := List.exists_cons_of_ne_nil (List.ne_nil_of_mem hnp)
      rw [hl] at hchain ⊢
      obtain ⟨hc, cell, hcell, hrest⟩ := hchain
      obtain rfl : n = c := Option.some.inj (hhead.symm.trans hc)
      obtain rfl : node = cell := Option.some.inj (hn.symm.trans hcell)
      rw [List.erase_cons_head]
      exact hrest.update_same hp rfl
    · rw [Graph.set_of_ne hqp] at hq
      rw [Function.update_of_ne hqp]
      exact (h.chain q node' hq).update_same hp rfl
  · rw [hunlink, if_neg hhead]
    obtain ⟨prev, prevCell, hprev, hmem, -, hcell, hrest⟩ :=
      hchain.prevFrom_spec (fun node o => { node with next := o }) (fun _ _ => rfl) hhead
        hnp hn (h.length_le hp)
    rw [hprev]
    have hbodies : SameBodies g (g.set prev { prevCell with next := node.next }) :=
      SameBodies.set hcell rfl
    have hchildren : Heap.Agree Node.child g (g.set prev { prevCell with next := node.next }) :=
      Heap.Agree.update hcell rfl
    refine ⟨g.set prev { prevCell with next := node.next }, ?_,
      h.leave hn hlimbo hparent hbodies fun q node' hq => ?_, hbodies, fun m hm _ => ?_⟩
    · rw [Option.bind_some, hcell, Option.bind_some]
    · obtain ⟨qnode, hqnode, hchild⟩ := hchildren.back hq
      rw [← hchild]
      by_cases hqp : q = p
      · subst hqp
        obtain rfl : pnode = qnode := Option.some.inj (hp.symm.trans hqnode)
        rw [Function.update_self]
        exact hrest
      · rw [Function.update_of_ne hqp]
        obtain ⟨-, prevNode, hprevNode, hprevParent⟩ := (h.mem p prev).1 hmem
        refine (h.chain q qnode hqnode).update (h.not_mem_of_parent hprevNode ?_) _
        rw [hprevParent]
        exact fun heq => hqp (Option.some.inj heq).symm
    · exact Graph.set_of_ne (ne_of_mem_of_not_mem hmem hm).symm ..

/-! ### Releasing a node -/

/-- A node without a parent may as well be in limbo. -/
theorem Linked.to_limbo (h : Linked g limbo kids) (hn : g n = some node)
    (hparent : node.parent = none) : Linked g (n :: limbo) kids := by
  refine ⟨h.chain, fun p c => ?_, h.home⟩
  rw [List.mem_cons, not_or, and_assoc, ← h.mem]
  refine (and_iff_right_of_imp ?_).symm
  rintro hc rfl
  refine h.not_mem_of_parent hn ?_ hc
  rw [hparent]
  exact Option.some_ne_none p |>.symm

/-- A node in limbo may be given another parent pointer: its lists are not those of its parent. -/
theorem Linked.set_limbo (h : Linked g (n :: limbo) kids) (hn : g n = some node) {node' : Node}
    (hchild : node'.child = node.child) : Linked (g.set n node') (n :: limbo) kids := by
  have hout := h.not_mem_of_limbo (List.mem_cons_self ..)
  refine ⟨fun p pnode hp => ?_, fun p c => ?_, fun p hp => ?_⟩
  · by_cases hpn : p = n
    · subst hpn
      rw [Graph.set_self] at hp
      obtain rfl := Option.some.inj hp
      rw [hchild]
      exact (h.chain p node hn).update (hout p) _
    · rw [Graph.set_of_ne hpn] at hp
      exact (h.chain p pnode hp).update (hout p) _
  · rw [h.mem, List.mem_cons, not_or, and_assoc, and_assoc]
    apply and_congr_right
    intro hcn
    rw [Graph.set_of_ne hcn]
  · by_cases hpn : p = n
    · subst hpn
      exact ⟨_, Graph.set_self ..⟩
    · rw [Graph.set_of_ne hpn]
      exact h.home p hp

/-- Once its parent pointer is cleared, the node is no longer in limbo. -/
theorem Linked.of_limbo (h : Linked g (n :: limbo) kids) (hn : g n = some node)
    (hparent : node.parent = none) : Linked g limbo kids := by
  refine ⟨h.chain, fun p c => ?_, h.home⟩
  rw [h.mem, List.mem_cons, not_or, and_assoc]
  apply and_iff_right_of_imp
  rintro ⟨-, cnode, hc, hcparent⟩ rfl
  rw [hn] at hc
  obtain rfl := Option.some.inj hc
  cases hparent.symm.trans hcparent

/-- The lists after a node in limbo has been put in front of the one of its parent. -/
theorem Linked.join (h : Linked g (n :: limbo) kids) (hn : g n = some node) (hlimbo : n ∉ limbo)
    (hparent : node.parent = some p) {pnode : Node} (hp : g p = some pnode)
    (hnext : node.next = pnode.child) :
    Linked (g.set p { pnode with child := some n }) limbo
      (Function.update kids p (n :: kids p)) := by
  have hout := h.not_mem_of_limbo (List.mem_cons_self ..)
  have hbodies : SameBodies g (g.set p { pnode with child := some n }) := SameBodies.set hp rfl
  refine ⟨fun q qnode hq => ?_, fun q c => ?_, fun q hq => ?_⟩
  · by_cases hqp : q = p
    · subst hqp
      rw [Graph.set_self] at hq
      obtain rfl := Option.some.inj hq
      rw [Function.update_self]
      have hrest : Chain (g.set q { pnode with child := some n }) Node.next node.next (kids q) := by
        rw [hnext]
        exact (h.chain q pnode hp).update_same hp rfl
      by_cases hnq : n = q
      · subst hnq
        obtain rfl : node = pnode := Option.some.inj (hn.symm.trans hp)
        exact ⟨rfl, _, Graph.set_self .., hrest⟩
      · exact ⟨rfl, node, (Graph.set_of_ne hnq ..).trans hn, hrest⟩
    · rw [Graph.set_of_ne hqp] at hq
      rw [Function.update_of_ne hqp]
      exact (h.chain q qnode hq).update_same hp rfl
  · rw [hbodies.parent_iff]
    by_cases hcn : c = n
    · subst hcn
      have hiff : (∃ cnode, g c = some cnode ∧ cnode.parent = some q) ↔ q = p := by
        constructor
        · intro ⟨cnode, hc, hcparent⟩
          rw [hn] at hc
          obtain rfl := Option.some.inj hc
          exact Option.some.inj (hcparent.symm.trans hparent)
        · rintro rfl
          exact ⟨node, hn, hparent⟩
      rw [hiff, and_iff_right hlimbo]
      by_cases hqp : q = p
      · subst hqp
        rw [Function.update_self]
        exact iff_of_true (List.mem_cons_self ..) rfl
      · rw [Function.update_of_ne hqp]
        exact iff_of_false (hout q) hqp
    · have hold := h.mem q c
      rw [List.mem_cons, not_or, and_assoc, and_iff_right (show ¬ c = n from hcn)] at hold
      rw [← hold]
      by_cases hqp : q = p
      · subst hqp
        rw [Function.update_self, List.mem_cons, or_iff_right hcn]
      · rw [Function.update_of_ne hqp]
  · by_cases hqp : q = p
    · subst hqp
      exact ⟨_, Graph.set_self ..⟩
    · rw [Function.update_of_ne hqp] at hq
      rw [Graph.set_of_ne hqp]
      exact h.home q hq

theorem Linked.free (h : Linked g (n :: limbo) kids) (hempty : kids n = []) :
    Linked (g.free n) limbo kids := by
  have hout := h.not_mem_of_limbo (List.mem_cons_self ..)
  refine ⟨fun p pnode hp => ?_, fun p c => ?_, fun p hp => ?_⟩
  · by_cases hpn : p = n
    · subst hpn
      rw [Graph.free_self] at hp
      cases hp
    · rw [Graph.free_of_ne hpn] at hp
      exact (h.chain p pnode hp).update (hout p) _
  · rw [h.mem, List.mem_cons, not_or, and_assoc]
    by_cases hcn : c = n
    · subst hcn
      rw [Graph.free_self]
      refine iff_of_false (fun hc => hc.1 rfl) ?_
      rintro ⟨-, node', hnode', -⟩
      cases hnode'
    · rw [Graph.free_of_ne hcn]
      exact and_iff_right hcn
  · have hpn : p ≠ n := by
      rintro rfl
      exact hp hempty
    rw [Graph.free_of_ne hpn]
    exact h.home p hp

theorem Counted.free (h : Counted g (n :: limbo) kids refs) (hzero : refs n = 0) :
    Counted (g.free n) limbo kids refs := by
  have hne : ∀ m node, g.free n m = some node → m ≠ n ∧ g m = some node := by
    intro m node hm
    by_cases hmn : m = n
    · subst hmn
      rw [Graph.free_self] at hm
      cases hm
    · rw [Graph.free_of_ne hmn] at hm
      exact ⟨hmn, hm⟩
  refine ⟨fun m node hm => h.count m node (hne m node hm).2, fun m node hm hlimbo => ?_,
    fun m hm => ?_⟩
  · obtain ⟨hmn, hm⟩ := hne m node hm
    exact h.pos m node hm fun hmem => (List.mem_cons.1 hmem).elim hmn hlimbo
  · by_cases hmn : m = n
    · rw [hmn, hzero]
    · rw [Graph.free_of_ne hmn] at hm
      exact h.dead m hm

theorem Counted.live (h : Counted g limbo kids refs) (hrefs : 0 < refs n) :
    ∃ node, g n = some node := by
  cases hn : g n with
  | none => exact absurd (h.dead n hn) hrefs.ne'
  | some node => exact ⟨node, rfl⟩

/-- The counts after a node has given up one reference from outside. -/
theorem Counted.drop (h : Counted g limbo kids refs) (hn : g n = some node) (hrefs : 0 < refs n)
    (hpos : n ∈ limbo ∨ 1 < node.refcount) :
    Counted (g.set n { node with refcount := node.refcount - 1 }) limbo kids
      (Function.update refs n (refs n - 1)) := by
  have hcount := h.count n node hn
  refine ⟨fun m mnode hm => ?_, fun m mnode hm hlimbo => ?_, fun m hm => ?_⟩ <;>
    by_cases hmn : m = n
  · subst hmn
    rw [Graph.set_self] at hm
    obtain rfl := Option.some.inj hm
    rw [Function.update_self]
    show node.refcount - 1 = _
    omega
  · rw [Graph.set_of_ne hmn] at hm
    rw [Function.update_of_ne hmn]
    exact h.count m mnode hm
  · subst hmn
    rw [Graph.set_self] at hm
    obtain rfl := Option.some.inj hm
    show 0 < node.refcount - 1
    have := hpos.resolve_left hlimbo
    omega
  · rw [Graph.set_of_ne hmn] at hm
    exact h.pos m mnode hm hlimbo
  · subst hmn
    rw [Graph.set_self] at hm
    cases hm
  · rw [Graph.set_of_ne hmn] at hm
    rw [Function.update_of_ne hmn]
    exact h.dead m hm

theorem Counted.set_same (h : Counted g limbo kids refs) (hn : g n = some node) {node' : Node}
    (hrefcount : node'.refcount = node.refcount) : Counted (g.set n node') limbo kids refs := by
  have hback : ∀ m mnode', g.set n node' m = some mnode' →
      ∃ mnode, g m = some mnode ∧ mnode'.refcount = mnode.refcount := by
    intro m mnode' hm
    by_cases hmn : m = n
    · subst hmn
      rw [Graph.set_self] at hm
      obtain rfl := Option.some.inj hm
      exact ⟨node, hn, hrefcount⟩
    · rw [Graph.set_of_ne hmn] at hm
      exact ⟨mnode', hm, rfl⟩
  refine ⟨fun m mnode' hm => ?_, fun m mnode' hm hlimbo => ?_, fun m hm => ?_⟩
  · obtain ⟨mnode, hmnode, hsame⟩ := hback m mnode' hm
    rw [hsame, h.count m mnode hmnode]
  · obtain ⟨mnode, hmnode, hsame⟩ := hback m mnode' hm
    rw [hsame]
    exact h.pos m mnode hmnode hlimbo
  · apply h.dead m
    by_cases hmn : m = n
    · subst hmn
      rw [Graph.set_self] at hm
      cases hm
    · rwa [Graph.set_of_ne hmn] at hm

theorem Counted.to_limbo (h : Counted g limbo kids refs) (n : NodeId) :
    Counted g (n :: limbo) kids refs :=
  ⟨h.count, fun m node hm hlimbo => h.pos m node hm fun hmem =>
    hlimbo (List.mem_cons_of_mem n hmem), h.dead⟩

/-- A child that leaves turns its part of the parent's count into a reference from outside. -/
theorem Counted.leave (h : Counted g limbo kids refs) (hbodies : SameBodies g g')
    (hmem : n ∈ kids p) (hp : g p ≠ none) :
    Counted g' limbo (Function.update kids p ((kids p).erase n))
      (Function.update refs p (refs p + 1)) := by
  refine ⟨fun m mnode' hm => ?_, fun m mnode' hm hlimbo => ?_, fun m hm => ?_⟩
  · obtain ⟨mnode, hmnode, hbody⟩ := hbodies.back hm
    rw [← body_refcount hbody, h.count m mnode hmnode]
    by_cases hmp : m = p
    · subst hmp
      have hpositive := List.length_pos_of_mem hmem
      rw [Function.update_self, Function.update_self, List.length_erase_of_mem hmem]
      omega
    · rw [Function.update_of_ne hmp, Function.update_of_ne hmp]
  · obtain ⟨mnode, hmnode, hbody⟩ := hbodies.back hm
    rw [← body_refcount hbody]
    exact h.pos m mnode hmnode hlimbo
  · have hgone : g m = none := Option.map_eq_none_iff.1 ((hbodies m).symm.trans (by rw [hm]; rfl))
    have hmp : m ≠ p := by
      rintro rfl
      exact hp hgone
    rw [Function.update_of_ne hmp]
    exact h.dead m hgone

/-- A child that joins turns a reference from outside into its part of the parent's count. -/
theorem Counted.join (h : Counted g limbo kids refs) (hbodies : SameBodies g g')
    (hrefs : 0 < refs p) :
    Counted g' limbo (Function.update kids p (n :: kids p))
      (Function.update refs p (refs p - 1)) := by
  refine ⟨fun m mnode' hm => ?_, fun m mnode' hm hlimbo => ?_, fun m hm => ?_⟩
  · obtain ⟨mnode, hmnode, hbody⟩ := hbodies.back hm
    rw [← body_refcount hbody, h.count m mnode hmnode]
    by_cases hmp : m = p
    · subst hmp
      rw [Function.update_self, Function.update_self, List.length_cons]
      omega
    · rw [Function.update_of_ne hmp, Function.update_of_ne hmp]
  · obtain ⟨mnode, hmnode, hbody⟩ := hbodies.back hm
    rw [← body_refcount hbody]
    exact h.pos m mnode hmnode hlimbo
  · have hgone : g m = none := Option.map_eq_none_iff.1 ((hbodies m).symm.trans (by rw [hm]; rfl))
    have hmp : m ≠ p := by
      rintro rfl
      exact hrefs.ne' (h.dead m hgone)
    rw [Function.update_of_ne hmp]
    exact h.dead m hgone

/-- What releasing a node does: it gives back one of the references held on it from outside, and
destroys what nothing refers to any more. Nodes in limbo are not looked at. -/
def Releases (release : NodeId → Graph → Option Graph) (limbo : List NodeId) : Prop :=
  ∀ (g : Graph) (kids : NodeId → List NodeId) (refs : NodeId → Nat) (n : NodeId),
    Linked g limbo kids → Counted g limbo kids refs → (∀ m ∈ limbo, kids m = [] ∨ 0 < refs m) →
    0 < refs n → (n ∈ limbo → 1 < refs n) →
    ∃ g' kids', release n g = some g' ∧ Linked g' limbo kids' ∧
      Counted g' limbo kids' (Function.update refs n (refs n - 1)) ∧ Keeps g g' ∧
      ∀ m ∈ limbo, kids m = [] → refs m = 0 → g' m = g m

theorem Linked.kids_eq_nil (h : Linked g limbo kids) {kids' : NodeId → List NodeId}
    (h' : Linked g' limbo kids') (hkeeps : Keeps g g') (hempty : kids n = []) : kids' n = [] := by
  apply List.eq_nil_iff_forall_not_mem.2
  intro c hc
  obtain ⟨hout, cnode', hcnode', hparent⟩ := (h'.mem n c).1 hc
  obtain ⟨cnode, hcnode, hcore⟩ := hkeeps c cnode' hcnode'
  have hold : c ∈ kids n :=
    (h.mem n c).2 ⟨hout, cnode, hcnode, (core_parent hcore).symm.trans hparent⟩
  rw [hempty] at hold
  cases hold

variable {release : NodeId → Graph → Option Graph}

/-- A node leaves its parent, which gives up the reference the node was: the node is as it was, but
without a parent. It is in limbo meanwhile, and still there afterwards. -/
theorem removeNodeFromParentBy_spec (hrelease : Releases release (n :: limbo))
    (hlinked : Linked g limbo kids) (hcounted : Counted g (n :: limbo) kids refs)
    (hkept : ∀ m ∈ n :: limbo, kids m = [] ∨ 0 < refs m) (hn : g n = some node)
    (hlimbo : n ∉ limbo) :
    ∃ g' kids' node', removeNodeFromParentBy release n g = some g' ∧
      Linked g' (n :: limbo) kids' ∧ Linked g' limbo kids' ∧ Counted g' (n :: limbo) kids' refs ∧
      g' n = some node' ∧ Keeps (g.set n { node with parent := none }) g' ∧
      (kids n = [] → kids' n = []) ∧ ∀ m ∈ limbo, kids m = [] → refs m = 0 → g' m = g m := by
  obtain hparent | ⟨p, hparent⟩ := Option.eq_none_or_eq_some node.parent
  · refine ⟨g, kids, node, ?_, hlinked.to_limbo hn hparent, hlinked, hcounted, hn, ?_, id,
      fun m _ _ _ => rfl⟩
    · simp only [removeNodeFromParentBy, hn, hparent, Option.bind_eq_bind, Option.bind_some]
    · have hsame : { node with parent := none } = node := by
        rw [← hparent]
      rw [hsame, Graph.set, ← hn, Function.update_eq_self]
      exact Keeps.refl g
  have hnp : n ∈ kids p := (hlinked.mem p n).2 ⟨hlimbo, node, hn, hparent⟩
  obtain ⟨pnode, hp⟩ := hlinked.home p (List.ne_nil_of_mem hnp)
  obtain ⟨g₂, hunlink, hlinked₂, hbodies₂, hframe₂⟩ := unlinkSibling_spec hlinked hn hlimbo hparent
  have hcounted₂ := hcounted.leave hbodies₂ hnp (by rw [hp]; exact Option.some_ne_none _)
  -- the parent still holds the reference that the node was, now from outside
  have hrefsp : Function.update refs p (refs p + 1) p = refs p + 1 := Function.update_self ..
  have hempty₂ : ∀ m, kids m = [] → m ≠ p ∧ Function.update kids p ((kids p).erase n) m = [] := by
    intro m hm
    have hmp : m ≠ p := by
      rintro rfl
      exact List.ne_nil_of_mem hnp hm
    refine ⟨hmp, ?_⟩
    rw [Function.update_of_ne hmp, hm]
  have hkept₂ : ∀ m ∈ n :: limbo, Function.update kids p ((kids p).erase n) m = [] ∨
      0 < Function.update refs p (refs p + 1) m := by
    intro m hm
    by_cases hmp : m = p
    · rw [hmp, hrefsp]
      exact Or.inr (Nat.succ_pos _)
    · rw [Function.update_of_ne hmp, Function.update_of_ne hmp]
      exact hkept m hm
  have hlast₂ : p ∈ n :: limbo → 1 < Function.update refs p (refs p + 1) p := by
    intro hmem
    have hheld := (hkept p hmem).resolve_left (List.ne_nil_of_mem hnp)
    rw [hrefsp]
    omega
  obtain ⟨g₃, kids₃, hrel, hlinked₃, hcounted₃, hkeeps₃, hframe₃⟩ :=
    hrelease g₂ _ _ p hlinked₂ hcounted₂ hkept₂ (by rw [hrefsp]; exact Nat.succ_pos _) hlast₂
  rw [hrefsp, Nat.add_sub_cancel, Function.update_idem, Function.update_eq_self] at hcounted₃
  obtain ⟨node₃, hn₃⟩ : ∃ node₃, g₃ n = some node₃ := by
    rcases Nat.eq_zero_or_pos (refs n) with hzero | hheld
    · have hempty := (hkept n (List.mem_cons_self ..)).resolve_right (by omega)
      obtain ⟨hne, hnempty⟩ := hempty₂ n hempty
      obtain ⟨node₂, hnode₂, -⟩ := hbodies₂.symm.back hn
      exact ⟨node₂, (hframe₃ n (List.mem_cons_self ..) hnempty (by
        rw [Function.update_of_ne hne, hzero])).trans hnode₂⟩
    · exact hcounted₃.live hheld
  have hlinked₄ : Linked (g₃.set n { node₃ with parent := none, next := none }) limbo kids₃ := by
    refine Linked.of_limbo (hlinked₃.set_limbo hn₃ ?_) (Graph.set_self ..) ?_ <;> rfl
  refine ⟨g₃.set n { node₃ with parent := none, next := none }, kids₃, _, ?_,
    hlinked₄.to_limbo (Graph.set_self ..) rfl, hlinked₄, hcounted₃.set_same hn₃ rfl,
    Graph.set_self .., ?_, fun hempty => ?_, fun m hm hempty hzero => ?_⟩
  · simp only [removeNodeFromParentBy, hn, hparent, Option.bind_eq_bind, Option.bind_some, hunlink,
      hrel, hn₃]
  · have hkeeps : Keeps g g₃ := hbodies₂.keeps.trans hkeeps₃
    have hcore : node₃.core = node.core := Heap.Thins.eq hkeeps hn hn₃
    exact Heap.Thins.update_both hkeeps
      (congrArg (fun core => ({ core with parent := none } : Node)) hcore)
  · exact hlinked₂.kids_eq_nil hlinked₃ hkeeps₃ (hempty₂ n hempty).2
  · obtain ⟨hmp, hmempty⟩ := hempty₂ m hempty
    have hmem := hlinked.not_mem_of_limbo hm p
    rw [Graph.set_of_ne (ne_of_mem_of_not_mem hm hlimbo), hframe₃ m (List.mem_cons_of_mem n hm)
      hmempty (by rw [Function.update_of_ne hmp, hzero]), hframe₂ m hmem hmp]

/-- However deep the nodes lie in each other, releasing one ends: each node that is freed meanwhile
is one more in limbo, and there are not more of them than pointers. -/
theorem releases_releaseNodeWithin (fuel : Nat) (hnodup : limbo.Nodup)
    (hfuel : enough < fuel + limbo.length) : Releases (releaseNodeWithin fuel) limbo := by
  induction fuel generalizing limbo with
  | zero =>
      have hcard : limbo.length ≤ enough := hnodup.length_le_card.trans (Fintype.card_fin _).le
      omega
  | succ fuel ih =>
      intro g kids refs n hlinked hcounted hkept hrefs hlast
      obtain ⟨node, hn⟩ := hcounted.live hrefs
      have hcount := hcounted.count n node hn
      have hlinked₁ : Linked (g.set n { node with refcount := node.refcount - 1 }) limbo kids :=
        hlinked.set_same hn rfl rfl rfl
      have hkeeps₁ : Keeps g (g.set n { node with refcount := node.refcount - 1 }) :=
        Keeps.set hn rfl
      have hframe₁ : ∀ m, refs m = 0 →
          (g.set n { node with refcount := node.refcount - 1 }) m = g m := by
        intro m hm
        refine Graph.set_of_ne ?_ ..
        rintro rfl
        omega
      have hunfold : releaseNodeWithin (fuel + 1) n g =
          if node.refcount = 1 then
            (removeNodeFromParentBy (releaseNodeWithin fuel) n
              (g.set n { node with refcount := node.refcount - 1 })).bind
                fun g => some (g.free n)
          else some (g.set n { node with refcount := node.refcount - 1 }) := by
        rw [releaseNodeWithin, hn]
        show (if node.refcount = 0 then _ else _) = _
        rw [if_neg (by omega)]
        rfl
      rw [hunfold]
      by_cases hone : node.refcount = 1
      · -- the last reference: the node is destroyed
        have hempty : kids n = [] := List.length_eq_zero_iff.1 (by omega)
        have hlimbo : n ∉ limbo := by
          intro hmem
          have := hlast hmem
          omega
        have hcounted₁ := (hcounted.to_limbo n).drop hn hrefs (Or.inl (List.mem_cons_self ..))
        have hkept₁ : ∀ m ∈ n :: limbo, kids m = [] ∨
            0 < Function.update refs n (refs n - 1) m := by
          intro m hm
          by_cases hmn : m = n
          · exact Or.inl (hmn ▸ hempty)
          · rw [Function.update_of_ne hmn]
            exact hkept m ((List.mem_cons.1 hm).resolve_left hmn)
        have hrelease : Releases (releaseNodeWithin fuel) (n :: limbo) :=
          ih (List.nodup_cons.2 ⟨hlimbo, hnodup⟩) (by rw [List.length_cons]; omega)
        obtain ⟨g', kids', node', hremove, hlimbo', -, hcounted', -, hkeeps', hempty', hframe'⟩ :=
          removeNodeFromParentBy_spec hrelease hlinked₁ hcounted₁ hkept₁ (Graph.set_self ..) hlimbo
        rw [if_pos hone, hremove, Option.bind_some]
        rw [Graph.set_set] at hkeeps'
        refine ⟨g'.free n, kids', rfl, hlimbo'.free (hempty' hempty), hcounted'.free ?_,
          Heap.Thins.free hkeeps', fun m hm hmempty hzero => ?_⟩
        · rw [Function.update_self]
          omega
        · have hmn := ne_of_mem_of_not_mem hm hlimbo
          rw [Graph.free_of_ne hmn, hframe' m hm hmempty (by rw [Function.update_of_ne hmn, hzero]),
            hframe₁ m hzero]
      · rw [if_neg hone]
        exact ⟨_, kids, rfl, hlinked₁, hcounted.drop hn hrefs (Or.inr (by omega)), hkeeps₁,
          fun m _ _ hm => hframe₁ m hm⟩

end LineageA1000.Fuse
