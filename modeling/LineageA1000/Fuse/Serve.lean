import LineageA1000.Fuse.Balance
import LineageA1000.Fuse.Daemon

/-!
# What the critical sections do

For each critical section that changes the graph: it leaves the graph balanced, over the references
it took or gave back, and it moves at most one node to another parent.
-/

namespace LineageA1000.Fuse

variable {g g' : Graph} {refs : NodeId → Nat} {n p : NodeId} {node pnode : Node}

/-! ### Parents -/

def parentOf (g : Graph) (n : NodeId) : Option NodeId := (g n).bind Node.parent

theorem parentOf_eq (hn : g n = some node) : parentOf g n = node.parent := by
  rw [parentOf, hn, Option.bind_some]

/-- Some nodes may be gone; the others are where they were. -/
def Prunes (g g' : Graph) : Prop := ∀ m, g' m ≠ none → g m ≠ none ∧ parentOf g' m = parentOf g m

/-- The node `c` is below `p` now; some of the others may be gone. -/
def Moves (g g' : Graph) (c p : NodeId) : Prop :=
  (g' c ≠ none → parentOf g' c = some p) ∧
    ∀ m, m ≠ c → g' m ≠ none → g m ≠ none ∧ parentOf g' m = parentOf g m

theorem Prunes.of_thins (h : Heap.Thins Node.parent g g') : Prunes g g' := by
  intro m hm
  obtain ⟨node', hnode'⟩ := Option.ne_none_iff_exists'.1 hm
  obtain ⟨node, hnode, hparent⟩ := h m node' hnode'
  rw [parentOf_eq hnode', parentOf_eq hnode, hparent, hnode]
  exact ⟨Option.some_ne_none node, rfl⟩

theorem Keeps.prunes (h : Keeps g g') : Prunes g g' :=
  .of_thins (Heap.Thins.comp h Node.parent)

theorem SameShapes.prunes (h : SameShapes g g') : Prunes g g' :=
  .of_thins (Heap.Agree.comp h fun t => t.2.2.2).thins

theorem Moves.prunes {c : NodeId} (h : Moves g g' c p) {g₂ : Graph} (h' : Prunes g' g₂) :
    Moves g g₂ c p := by
  refine ⟨fun hc => ?_, fun m hmc hm => ?_⟩
  · obtain ⟨hc', hparent⟩ := h' c hc
    exact hparent.trans (h.1 hc')
  · obtain ⟨hm', hparent⟩ := h' m hm
    obtain ⟨hm₀, hparent'⟩ := h.2 m hmc hm'
    exact ⟨hm₀, hparent.trans hparent'⟩

theorem HasRoom.congr (h : HasRoom g n) (hshapes : SameShapes g g') : HasRoom g' n := by
  intro node hn
  obtain ⟨old, hold, hshape⟩ := hshapes.back hn
  rw [← (Prod.mk.inj hshape).1]
  exact h old hold

/-! ### Looking up and creating -/

/-- The walk through the children ends, at a child of the name or at none. -/
theorem lookupChildByName_spec (h : Balanced g refs) (hp : g p = some pnode) (name : Bytes) :
    ∃ found, lookupChildByName p name g = some found ∧ ∀ c, found = some c →
      ∃ node, g c = some node ∧ node.parent = some p ∧ node.name = name ∧ node.deleted = false := by
  obtain ⟨kids, hlinked, -⟩ := h
  obtain ⟨found, hfind, hfound⟩ := (hlinked.chain p pnode hp).findFrom_spec
    (fun node => node.name = name && !node.deleted) (hlinked.length_le hp)
  refine ⟨found, ?_, fun c hc => ?_⟩
  · simp only [lookupChildByName, hp, Option.bind_eq_bind, Option.bind_some, hfind]
  · obtain ⟨hmem, node, hnode, hname⟩ := hfound c hc
    obtain ⟨-, node', hnode', hparent⟩ := (hlinked.mem p c).1 hmem
    obtain rfl : node = node' := Option.some.inj (hnode.symm.trans hnode')
    rw [Bool.and_eq_true, decide_eq_true_eq, Bool.not_eq_true'] at hname
    exact ⟨node, hnode, hparent, hname⟩

/-- Where no child is found, all children of the name are deleted. -/
theorem lookupChildByName_none (h : Balanced g refs) (hp : g p = some pnode) {name : Bytes}
    (hfind : lookupChildByName p name g = some none) {c : NodeId} (hc : g c = some node)
    (hparent : node.parent = some p) (hname : node.name = name) : node.deleted = true := by
  obtain ⟨kids, hlinked, -⟩ := h
  simp only [lookupChildByName, hp, Option.bind_eq_bind, Option.bind_some] at hfind
  have hmiss := (hlinked.chain p pnode hp).findFrom_none _ hfind c
    ((hlinked.mem p c).2 ⟨List.not_mem_nil, node, hc, hparent⟩) node hc
  rw [decide_eq_true hname, Bool.true_and, Bool.not_eq_false'] at hmiss
  exact hmiss

/-- When all but a node's parent pointer is kept, the node has moved. -/
theorem Keeps.moves {c : NodeId} {cnode : Node} (h : Keeps (g.set c cnode) g')
    (hparent : cnode.parent = some p) : Moves g g' c p := by
  have hprunes := h.prunes
  refine ⟨fun hc => ?_, fun m hmc hm => ?_⟩
  · obtain ⟨-, hsame⟩ := hprunes c hc
    rw [hsame, parentOf_eq (Graph.set_self ..), hparent]
  · obtain ⟨hm', hsame⟩ := hprunes m hm
    rw [Graph.set_of_ne hmc] at hm'
    rw [hsame, parentOf, parentOf, Graph.set_of_ne hmc]
    exact ⟨hm', rfl⟩

theorem Moves.of_prunes {g₀ : Graph} {c : NodeId} (h : Moves g g' c p)
    (h₀ : ∀ m, m ≠ c → g m ≠ none → g₀ m ≠ none ∧ parentOf g m = parentOf g₀ m) :
    Moves g₀ g' c p := by
  refine ⟨h.1, fun m hmc hm => ?_⟩
  obtain ⟨hm', hparent⟩ := h.2 m hmc hm
  obtain ⟨hm₀, hparent'⟩ := h₀ m hmc hm'
  exact ⟨hm₀, hparent.trans hparent'⟩

theorem prunes_set_ne (g : Graph) (c : NodeId) (cnode : Node) :
    ∀ m, m ≠ c → g.set c cnode m ≠ none →
      g m ≠ none ∧ parentOf (g.set c cnode) m = parentOf g m := by
  intro m hmc hm
  rw [Graph.set_of_ne hmc] at hm
  rw [parentOf, parentOf, Graph.set_of_ne hmc]
  exact ⟨hm, rfl⟩

theorem Keeps.congr_set {c : NodeId} {cnode cnode' : Node} (h : Keeps (g.set c cnode) g')
    (hcore : cnode.core = cnode'.core) : Keeps (g.set c cnode') g' := by
  have hset : Keeps (g.set c cnode') ((g.set c cnode').set c cnode) :=
    Keeps.set (Graph.set_self ..) hcore
  rw [Graph.set_set] at hset
  exact hset.trans h

/-- A node that was not there is now a child of `p`, with the permissions of one; some of the others
may be gone. -/
structure Created (cfg : Config) (s : Global) (p : NodeId) (name : Bytes) (c : NodeId)
    (g' : Graph) : Prop where
  fresh : s.nodes c = none
  keeps : ∃ pnode actualName, s.nodes p = some pnode ∧
    Keeps (s.nodes.set c { derivePermissions cfg s.packages pnode (newNode s name actualName) with
      parent := some p }) g'

theorem Created.moves {cfg : Config} {s : Global} {name : Bytes} {c : NodeId}
    (h : Created cfg s p name c g') : Moves s.nodes g' c p := by
  obtain ⟨pnode, actualName, -, hkeeps⟩ := h.keeps
  exact hkeeps.moves rfl

/-- The new node gets the one reference of the entry, and its parent one for the child. -/
theorem createNode_spec (cfg : Config) {s : Global} (h : Balanced s.nodes refs)
    (hp : s.nodes p = some pnode) (hroom : HasRoom s.nodes p) (alloc : Option NodeId)
    (name actualName : Bytes) :
    createNode cfg alloc p name actualName s = some (none, s) ∨
      ∃ c s', createNode cfg alloc p name actualName s = some (some c, s') ∧
        Balanced s'.nodes (Function.update refs c (refs c + 1)) ∧ s'.packages = s.packages ∧
        Created cfg s p name c s'.nodes := by
  rw [createNode]
  split
  · exact Or.inl rfl
  split
  · exact Or.inl rfl
  rename_i c halloc
  right
  have hc : s.nodes c = none := (of_decide_eq_true (Option.filter_eq_some_iff.1 halloc).2).1
  have hpc : p ≠ c := by
    rintro rfl
    rw [hc] at hp
    cases hp
  have hshape := derivePermissions_shape cfg s.packages pnode (newNode s name actualName)
  obtain ⟨node, hnode⟩ : ∃ node, node =
    derivePermissions cfg s.packages pnode (newNode s name actualName) := ⟨_, rfl⟩
  rw [← hnode] at hshape
  obtain ⟨hrefcount, hshape⟩ := Prod.mk.inj hshape
  obtain ⟨-, hshape⟩ := Prod.mk.inj hshape
  obtain ⟨hchild, hparent⟩ := Prod.mk.inj hshape
  have hacquire : acquireNode c (s.nodes.set c node) =
      some (s.nodes.set c { node with refcount := 1 }) := by
    have hone : (node.refcount + 1) % 2 ^ 32 = 1 := by
      rw [hrefcount]
      rfl
    simp only [acquireNode, Graph.set_self, Option.bind_eq_bind, Option.bind_some, hone,
      Graph.set_set]
  have hp₁ : (s.nodes.set c { node with refcount := 1 }) p = some pnode :=
    (Graph.set_of_ne hpc ..).trans hp
  have hbalanced₁ : Balanced (s.nodes.set c { node with refcount := 1 })
      (Function.update refs c (refs c + 1)) := h.insert hc rfl hchild hparent
  have hroom₁ : HasRoom (s.nodes.set c { node with refcount := 1 }) p := by
    intro qnode hq
    rw [Graph.set_of_ne hpc] at hq
    exact hroom qnode hq
  obtain ⟨g', hadd, hbalanced', hkeeps⟩ :=
    addNodeToParent_spec hbalanced₁ (Graph.set_self ..) hparent hp₁ hroom₁
  rw [Graph.set_set] at hkeeps
  have hkeeps' : Keeps (s.nodes.set c { node with parent := some p }) g' := hkeeps.congr_set rfl
  rw [hnode] at hkeeps'
  refine ⟨c, { s with
    nodes := g'
    inodeCtr := (s.inodeCtr + 1) % 2 ^ 32
    nextGeneration := (s.nextGeneration + 1) % 2 ^ 64 }, ?_, hbalanced', rfl, hc, pnode,
    actualName, hp, hkeeps'⟩
  simp only [hp, Option.bind_eq_bind, Option.bind_some, ← hnode, hacquire, hadd]

/-- The acquire that an entry for a name takes has room: it is of the child of that name, or else of
the parent of a new one. -/
def EntryRoom (g : Graph) (p : NodeId) (name : Bytes) : Prop :=
  HasRoom g ((lookupChildByName p name g).join.getD p)

instance (g : Graph) (p : NodeId) (name : Bytes) : Decidable (EntryRoom g p name) :=
  inferInstanceAs (Decidable (HasRoom _ _))

/-- An entry takes one reference to the node it is about. -/
theorem acquireOrCreateChild_spec (cfg : Config) {s : Global} (h : Balanced s.nodes refs)
    (hp : s.nodes p = some pnode) {name : Bytes} (hroom : EntryRoom s.nodes p name)
    (alloc : Option NodeId) (actualName : Bytes) :
    acquireOrCreateChild cfg alloc p name actualName s = some (none, s) ∨
      ∃ c s', acquireOrCreateChild cfg alloc p name actualName s = some (some c, s') ∧
        Balanced s'.nodes (Function.update refs c (refs c + 1)) ∧ s'.packages = s.packages ∧
        (Keeps s.nodes s'.nodes ∨ lookupChildByName p name s.nodes = some none ∧
          Created cfg s p name c s'.nodes) := by
  obtain ⟨found, hfind, hfound⟩ := lookupChildByName_spec h hp name
  rw [EntryRoom, hfind] at hroom
  cases found with
  | none =>
      have hcreate : acquireOrCreateChild cfg alloc p name actualName s =
          createNode cfg alloc p name actualName s := by
        simp only [acquireOrCreateChild, hfind, Option.bind_eq_bind, Option.bind_some]
      rw [hcreate]
      apply (createNode_spec cfg h hp hroom alloc name actualName).imp_right
      intro ⟨c, s', hdone, hbalanced, hpackages, hcreated⟩
      exact ⟨c, s', hdone, hbalanced, hpackages, Or.inr ⟨hfind, hcreated⟩⟩
  | some c =>
      obtain ⟨cnode, hc, -⟩ := hfound c rfl
      obtain ⟨g', hacquire, hbalanced, hkeeps⟩ := acquireNode_spec h hc hroom
      refine Or.inr ⟨c, { s with nodes := g' }, ?_, hbalanced, rfl, Or.inl hkeeps⟩
      simp only [acquireOrCreateChild, hfind, Option.bind_eq_bind, Option.bind_some, hacquire]

/-! ### Forgetting -/

theorem releaseTimes_spec (k : Nat) (h : Balanced g refs) (hk : k ≤ refs n) :
    ∃ g', releaseTimes n k g = some g' ∧ Balanced g' (Function.update refs n (refs n - k)) ∧
      Keeps g g' := by
  induction k generalizing g refs with
  | zero =>
      rw [Nat.sub_zero, Function.update_eq_self]
      exact ⟨g, rfl, h, Keeps.refl g⟩
  | succ k ih =>
      obtain ⟨g₁, hrelease, hbalanced₁, hkeeps⟩ := releaseNode_spec h (by omega : 0 < refs n)
      obtain ⟨g₂, htimes, hbalanced₂, hkeeps₂⟩ := ih hbalanced₁ (by
        rw [Function.update_self]
        omega)
      rw [Function.update_self, Function.update_idem, Nat.sub_sub, Nat.add_comm 1 k] at hbalanced₂
      refine ⟨g₂, ?_, hbalanced₂, hkeeps.trans hkeeps₂⟩
      simp only [releaseTimes, hrelease, Option.bind_eq_bind, Option.bind_some, htimes]

/-! ### Renaming -/

theorem renameNode_shape {memory : Bool} {name actualName : Bytes} {renamed : Node}
    (hrename : renameNode memory name actualName node = some renamed) :
    renamed.shape = node.shape := by
  rw [renameNode] at hrename
  split at hrename
  · cases hrename
  · obtain rfl := Option.some.inj hrename
    rfl

/-- The new parent has room for one more child once the old one has given it up. -/
def RelinkRoom (o : Outside) (newdir : NodeId) (newName newActualName : Bytes) (child : NodeId)
    (g : Graph) : Prop :=
  ∀ node, g child = some node → ∀ renamed,
    renameNode o.memory newName newActualName node = some renamed → ∀ g',
    removeNodeFromParent child (g.set child renamed) = some g' → HasRoom g' newdir

instance (o : Outside) (newdir : NodeId) (newName newActualName : Bytes) (child : NodeId)
    (g : Graph) : Decidable (RelinkRoom o newdir newName newActualName child g) :=
  inferInstanceAs (Decidable (∀ node ∈ g child,
    ∀ renamed ∈ renameNode o.memory newName newActualName node,
    ∀ g' ∈ removeNodeFromParent child (g.set child renamed), HasRoom g' newdir))

/-- A child that was taken from its parent can be hung on a directory, whatever was derived for it
in between. -/
theorem attach_orphan {g₀ g₁ g₃ : Graph} {child newdir : NodeId} {orphan : Node}
    (h : Balanced g₁ refs) (hkeeps : Keeps (g₀.set child { orphan with parent := none }) g₁)
    (hshapes : SameShapes g₁ g₃) (hchild : 0 < refs child) (hdir : 0 < refs newdir)
    (hroom : HasRoom g₁ newdir) :
    ∃ (g₅ : Graph) (node₃ : Node), addNodeToParent child newdir g₃ = some g₅ ∧
      g₃ child = some node₃ ∧ Balanced g₅ refs ∧
      Keeps (g₃.set child { node₃ with parent := some newdir }) g₅ := by
  have hbalanced₃ := h.congr hshapes
  obtain ⟨node₁, hnode₁⟩ := h.live hchild
  obtain ⟨dnode₃, hdnode₃⟩ := hbalanced₃.live hdir
  obtain ⟨node₃, hnode₃⟩ := hbalanced₃.live hchild
  have horphan : node₃.parent = none := by
    obtain ⟨-, hparent₁⟩ := hkeeps.prunes child (by rw [hnode₁]; exact Option.some_ne_none _)
    obtain ⟨-, hparent₃⟩ := hshapes.prunes child (by rw [hnode₃]; exact Option.some_ne_none _)
    rw [parentOf_eq hnode₃, hparent₁, parentOf_eq (Graph.set_self ..)] at hparent₃
    exact hparent₃
  obtain ⟨g₅, hadd, hbalanced₅, hkeeps₅⟩ :=
    addNodeToParent_spec hbalanced₃ hnode₃ horphan hdnode₃ (hroom.congr hshapes)
  exact ⟨g₅, node₃, hadd, hnode₃, hbalanced₅, hkeeps₅⟩

/-- The child of a rename has been given its new name, taken from its parent, given the permissions
of its new place, with all below it, and hung on the new parent; some of the others may be gone. -/
structure Relinked (cfg : Config) (o : Outside) (s : Global) (newdir : NodeId)
    (newName newActualName : Bytes) (child : NodeId) (g' : Graph) : Prop where
  steps : ∃ node renamed g₁ kids dnode node₁ g₃ node₃, s.nodes child = some node ∧
    renameNode o.memory newName newActualName node = some renamed ∧
    Keeps (s.nodes.set child { renamed with parent := none }) g₁ ∧ Linked g₁ [] kids ∧
    g₁ newdir = some dnode ∧ g₁ child = some node₁ ∧
    derivePermissionsRecursive cfg s.packages child
      (g₁.set child (derivePermissions cfg s.packages dnode node₁)) = some g₃ ∧
    g₃ child = some node₃ ∧ Keeps (g₃.set child { node₃ with parent := some newdir }) g'

/-- There was memory for the new name. -/
theorem Relinked.renames {cfg : Config} {o : Outside} {s : Global} {newdir child : NodeId}
    {newName newActualName : Bytes}
    (h : Relinked cfg o s newdir newName newActualName child g') (hn : s.nodes child = some node) :
    (renameNode o.memory newName newActualName node).isSome := by
  obtain ⟨old, renamed, _, _, _, _, _, _, hold, hrename, -⟩ := h.steps
  rw [Option.some.inj (hn.symm.trans hold), hrename]
  rfl

theorem Relinked.moves {cfg : Config} {o : Outside} {s : Global} {newdir child : NodeId}
    {newName newActualName : Bytes}
    (h : Relinked cfg o s newdir newName newActualName child g') :
    Moves s.nodes g' child newdir := by
  obtain ⟨node, renamed, g₁, kids, dnode, node₁, g₃, node₃, hnode, hrename, hkeeps₁, -, -, hnode₁,
    hderive, -, hkeeps₃⟩ := h.steps
  have hshapes₃ : SameShapes g₁ g₃ :=
    (SameShapes.set hnode₁ (derivePermissions_shape ..)).trans
      (sameShapes_deriveWithin _ _ _ _ hderive)
  apply (hkeeps₃.moves rfl).of_prunes
  intro m hmc hm
  obtain ⟨hm₁, hparent₃⟩ := hshapes₃.prunes m hm
  obtain ⟨hm₀, hparent₁⟩ := hkeeps₁.prunes m hm₁
  obtain ⟨hm', hparent'⟩ := prunes_set_ne _ child _ m hmc hm₀
  exact ⟨hm', hparent₃.trans (hparent₁.trans hparent')⟩

/-- When the relink of a rename comes to an end, either memory was short and all is as it was, or
the child is below the new parent. -/
theorem relinkNodes_spec {cfg : Config} {o : Outside} {s : Global} {newdir child : NodeId}
    {newName newActualName : Bytes} {res : Int} (h : Balanced s.nodes refs)
    (hchild : 0 < refs child)
    (hdir : 0 < refs newdir) (hroom : RelinkRoom o newdir newName newActualName child s.nodes)
    (hrelink : relinkNodes cfg o newdir newName newActualName child s = some (res, g')) :
    Balanced g' refs ∧
      (g' = s.nodes ∨ Relinked cfg o s newdir newName newActualName child g') := by
  obtain ⟨node, hnode⟩ := h.live hchild
  simp only [relinkNodes, hnode, Option.bind_eq_bind, Option.bind_some] at hrelink
  cases hrename : renameNode o.memory newName newActualName node with
  | none =>
      rw [hrename] at hrelink
      obtain ⟨-, rfl⟩ := Prod.mk.inj (Option.some.inj hrelink)
      exact ⟨h, Or.inl rfl⟩
  | some renamed =>
      rw [hrename] at hrelink
      dsimp only at hrelink
      have hshapes₀ : SameShapes s.nodes (s.nodes.set child renamed) :=
        SameShapes.set hnode (renameNode_shape hrename)
      have hbalanced₀ := h.congr hshapes₀
      obtain ⟨g₁, hremove, hbalanced₁, hkeeps₁⟩ :=
        removeNodeFromParent_spec hbalanced₀ (Graph.set_self ..) hchild
      rw [hremove, Option.bind_some] at hrelink
      obtain ⟨dnode, hdnode⟩ := hbalanced₁.live hdir
      obtain ⟨node₁, hnode₁⟩ := hbalanced₁.live hchild
      rw [hdnode, Option.bind_some, hnode₁, Option.bind_some] at hrelink
      have hshapes₂ : SameShapes g₁ (g₁.set child (derivePermissions cfg s.packages dnode node₁)) :=
        SameShapes.set hnode₁ (derivePermissions_shape ..)
      obtain ⟨g₃, hderive, hrelink⟩ := Option.bind_eq_some_iff.1 hrelink
      obtain ⟨g₄, hadd, hrelink⟩ := Option.bind_eq_some_iff.1 hrelink
      obtain ⟨-, rfl⟩ := Prod.mk.inj (Option.some.inj hrelink)
      have hshapes₃ : SameShapes g₁ g₃ := hshapes₂.trans (sameShapes_deriveWithin _ _ _ _ hderive)
      obtain ⟨g₅, node₃, hadd', hnode₃, hbalanced₅, hkeeps₅⟩ := attach_orphan hbalanced₁ hkeeps₁
        hshapes₃ hchild hdir (hroom node hnode renamed hrename g₁ hremove)
      obtain rfl : g₄ = g₅ := Option.some.inj (hadd.symm.trans hadd')
      rw [Graph.set_set] at hkeeps₁
      obtain ⟨kids, hlinked₁, -⟩ := hbalanced₁
      exact ⟨hbalanced₅, Or.inr ⟨node, renamed, g₁, kids, dnode, node₁, g₃, node₃, hnode, hrename,
        hkeeps₁, hlinked₁, hdnode, hnode₁, hderive, hnode₃, hkeeps₅⟩⟩

end LineageA1000.Fuse
