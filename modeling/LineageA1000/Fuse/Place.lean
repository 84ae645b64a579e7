import LineageA1000.Fuse.Tree

/-!
# What a node gets from its place

`derive_permissions_locked` gives a node its permissions from its parent and its name: when the node
is created, when a rename has moved it or a directory above it, and when the list of packages is
read again. What a node has should then be a function of the names on the way to it. It is, but for
the graft path, which is set below `Android` and never cleared.
-/

namespace LineageA1000.Fuse

/-- What `derive_permissions_locked` writes. -/
structure Derived where
  perm : Perm
  userid : Nat
  uid : Nat
  underAndroid : Bool
  graftPath : Option Bytes
  deriving DecidableEq, Repr

def Node.derived (node : Node) : Derived where
  perm := node.perm
  userid := node.userid
  uid := node.uid
  underAndroid := node.underAndroid
  graftPath := node.graftPath

/-- A new node, before anything is derived for it. -/
def blank (name : Bytes) : Node :=
  newNode { nodes := fun _ => none, inodeCtr := 0, nextGeneration := 0, packages := [] } name name

/-- The last of a chain of new nodes, created one below the other from the root. -/
def freshChain (cfg : Config) (packages : AppIdMap) (root : Node) (names : List Bytes) : Node :=
  names.foldl (fun parent name => derivePermissions cfg packages parent (blank name)) root

/-- The names on the way down from `top`. -/
inductive PathFrom (g : Graph) (top : NodeId) : NodeId → List Bytes → Prop where
  | here : PathFrom g top top []
  | down {n p : NodeId} {node : Node} {names : List Bytes} (hn : g n = some node)
      (hparent : node.parent = some p) (hpath : PathFrom g top p names) :
      PathFrom g top n (names ++ [node.name])

variable {cfg : Config} {packages : AppIdMap} {g g' : Graph} {n p top : NodeId}
  {node pnode root : Node} {names : List Bytes}

theorem freshChain_concat (cfg : Config) (packages : AppIdMap) (root : Node) (names : List Bytes)
    (name : Bytes) : freshChain cfg packages root (names ++ [name]) =
      derivePermissions cfg packages (freshChain cfg packages root names) (blank name) :=
  List.foldl_concat ..

/-- What is derived depends on the parent by what was derived for it, and on the node by its name
and by a graft path it has already. -/
theorem derivePermissions_derived (cfg : Config) (packages : AppIdMap) {parent parent' : Node}
    (h : parent.derived = parent'.derived) (node : Node) :
    (derivePermissions cfg packages parent node).derived =
      { (derivePermissions cfg packages parent' (blank node.name)).derived with
        graftPath := (derivePermissions cfg packages parent' (blank node.name)).graftPath.or
          node.graftPath } := by
  obtain ⟨hperm, huserid, huid, hunder, -⟩ := Derived.mk.inj h
  unfold derivePermissions blank newNode
  rw [hperm, huserid, huid, hunder]
  cases parent'.perm with
  | inherit => rfl
  | preRoot => rfl
  | root =>
      dsimp only
      split <;> rfl
  | android =>
      dsimp only
      split
      · rfl
      split
      · rfl
      split <;> rfl
  | androidData | androidObb | androidMedia =>
      dsimp only
      split <;> rfl

theorem derivePermissions_parent (cfg : Config) (packages : AppIdMap) (parent node : Node)
    (o : Option NodeId) : derivePermissions cfg packages parent { node with parent := o } =
      { derivePermissions cfg packages parent node with parent := o } := by
  unfold derivePermissions
  cases parent.perm with
  | inherit => rfl
  | preRoot => rfl
  | root =>
      dsimp only
      split <;> rfl
  | android =>
      dsimp only
      split
      · rfl
      split
      · rfl
      split <;> rfl
  | androidData | androidObb | androidMedia =>
      dsimp only
      split <;> rfl

/-! ### Graphs that differ in what was derived -/

/-- A node without what `derive_permissions_locked` writes. -/
def Node.rest (node : Node) : Node :=
  { node with perm := .inherit, userid := 0, uid := 0, underAndroid := false, graftPath := none }

def SameRest (g g' : Graph) : Prop := Heap.Agree Node.rest g g'

theorem SameRest.refl (g : Graph) : SameRest g g := Heap.Agree.refl Node.rest g

theorem SameRest.symm (h : SameRest g g') : SameRest g' g := Heap.Agree.symm h

theorem SameRest.trans {g₁ g₂ g₃ : Graph} (h : SameRest g₁ g₂) (h' : SameRest g₂ g₃) :
    SameRest g₁ g₃ := Heap.Agree.trans h h'

@[simp] theorem derivePermissions_rest (cfg : Config) (packages : AppIdMap) (parent node : Node) :
    (derivePermissions cfg packages parent node).rest = node.rest := by
  rw [derivePermissions]
  repeat' split
  all_goals rfl

theorem SameRest.set (hn : g n = some node) {node' : Node} (hrest : node'.rest = node.rest) :
    SameRest g (g.set n node') :=
  Heap.Agree.update hn hrest

theorem SameRest.back (h : SameRest g g') (hn : g' n = some node) :
    ∃ old, g n = some old ∧ old.rest = node.rest :=
  Heap.Agree.back h hn

theorem rest_parent {a b : Node} (h : a.rest = b.rest) : a.parent = b.parent := by
  show a.rest.parent = b.rest.parent
  rw [h]

theorem rest_name {a b : Node} (h : a.rest = b.rest) : a.name = b.name := by
  show a.rest.name = b.rest.name
  rw [h]

theorem SameRest.shapes (h : SameRest g g') : SameShapes g g' := Heap.Agree.comp h Node.shape

/-! ### Expectations and the walk that meets them -/

section Walk

-- what each node is expected to have
variable (Exp : NodeId → Derived → Prop)

def Has (g : Graph) (n : NodeId) : Prop := ∀ node d, g n = some node → Exp n d → node.derived = d

/-- There is no graft where none is expected. -/
def Ungrafted (g : Graph) : Prop :=
  ∀ n node d, g n = some node → Exp n d → d.graftPath = none → node.graftPath = none

/-- A child is expected to have what a new node of its name would get from its parent. -/
def Inherited (cfg : Config) (packages : AppIdMap) (g : Graph) : Prop :=
  ∀ n node p d, g n = some node → node.parent = some p → Exp n d →
    ∃ parent : Node, Exp p parent.derived ∧
      d = (derivePermissions cfg packages parent (blank node.name)).derived

/-- Expectations that were met still are. -/
structure Kept (g g' : Graph) : Prop where
  rest : SameRest g g'
  has : ∀ n, Has Exp g n → Has Exp g' n
  ungrafted : Ungrafted Exp g → Ungrafted Exp g'

variable {Exp}

theorem Kept.refl (g : Graph) : Kept Exp g g := ⟨SameRest.refl g, fun _ h => h, fun h => h⟩

theorem Kept.trans {g₁ g₂ g₃ : Graph} (h : Kept Exp g₁ g₂) (h' : Kept Exp g₂ g₃) :
    Kept Exp g₁ g₃ :=
  ⟨h.rest.trans h'.rest, fun n hn => h'.has n (h.has n hn), fun hg => h'.ungrafted (h.ungrafted hg)⟩

theorem Has.congr (h : Has Exp g n) (hsame : Heap.Thins Node.derived g g') : Has Exp g' n := by
  intro node' d hn' hexp
  obtain ⟨node, hn, hderived⟩ := hsame n node' hn'
  exact hderived.trans (h node d hn hexp)

theorem Ungrafted.congr (h : Ungrafted Exp g) (hsame : Heap.Thins Node.derived g g') :
    Ungrafted Exp g' := by
  intro m node' d hm' hexp hnone
  obtain ⟨node, hnode, hderived⟩ := hsame m node' hm'
  exact (congrArg Derived.graftPath hderived).trans (h m node d hnode hexp hnone)

theorem Inherited.congr (h : Inherited Exp cfg packages g) (hrest : SameRest g g') :
    Inherited Exp cfg packages g' := by
  intro n node p d hn hparent hexp
  obtain ⟨old, hold, hsame⟩ := hrest.back hn
  obtain ⟨parent, hpexp, hd⟩ := h n old p d hold ((rest_parent hsame).trans hparent) hexp
  rw [rest_name hsame] at hd
  exact ⟨parent, hpexp, hd⟩

/-- The derivation for one node, below a parent that has what is expected of it. -/
theorem has_set (hinherited : Inherited Exp cfg packages g) (hgraft : Ungrafted Exp g)
    (hn : g n = some node) (hparent : node.parent = some p) (hp : g p = some pnode)
    (hhas : Has Exp g p) :
    Kept Exp g (g.set n (derivePermissions cfg packages pnode node)) ∧
      Has Exp (g.set n (derivePermissions cfg packages pnode node)) n := by
  have hself : ∀ d, Exp n d → (derivePermissions cfg packages pnode node).derived = d := by
    intro d hexp
    obtain ⟨parent, hpexp, rfl⟩ := hinherited n node p d hn hparent hexp
    have hsame : pnode.derived = parent.derived := hhas pnode parent.derived hp hpexp
    rw [derivePermissions_derived cfg packages hsame node]
    obtain hfresh | ⟨path, hfresh⟩ := Option.eq_none_or_eq_some
      (derivePermissions cfg packages parent (blank node.name)).graftPath
    · rw [hgraft n node _ hn hexp hfresh, Option.or_none]
      rfl
    · rw [hfresh, Option.some_or, ← hfresh]
      rfl
  have hhere : Has Exp (g.set n (derivePermissions cfg packages pnode node)) n := by
    intro node' d hnode' hexp
    rw [Graph.set_self] at hnode'
    rw [← Option.some.inj hnode']
    exact hself d hexp
  refine ⟨⟨SameRest.set hn (derivePermissions_rest ..), fun m hm => ?_, fun _ m node' d hnode' hexp
    hnone => ?_⟩, hhere⟩
  · by_cases hmn : m = n
    · rw [hmn]
      exact hhere
    · intro node' d hnode' hexp
      rw [Graph.set_of_ne hmn] at hnode'
      exact hm node' d hnode' hexp
  · by_cases hmn : m = n
    · subst hmn
      have hderived := hhere node' d hnode' hexp
      rw [← hnone, ← hderived]
      rfl
    · rw [Graph.set_of_ne hmn] at hnode'
      exact hgraft m node' d hnode' hexp hnone

/-- The node `k` is a child of `p`, or below one. -/
def Under (g : Graph) (k p : NodeId) : Prop := ∃ c, parentOf g c = some p ∧ Above g k c

theorem above_iff_under {k c : NodeId} : Above g k c ↔ k = c ∨ Under g k c := by
  constructor
  · intro habove
    obtain heq | ⟨m, habove', hstep⟩ := Relation.ReflTransGen.cases_tail habove
    · exact Or.inl heq.symm
    · exact Or.inr ⟨m, hstep, habove'⟩
  · rintro (rfl | ⟨m, hstep, habove⟩)
    · exact Relation.ReflTransGen.refl
    · exact habove.tail hstep

theorem Under.congr {k : NodeId} (h : Under g k p) (hshapes : SameShapes g g') :
    Under g' k p := by
  obtain ⟨c, hparent, habove⟩ := h
  exact ⟨c, (hshapes.parentOf c).trans hparent,
    habove.mono fun m q hq => (hshapes.parentOf m).trans hq⟩

theorem not_under_of_leaf {kids : NodeId → List NodeId} (hlinked : Linked g [] kids)
    (hn : g n = some node) (hleaf : node.child = none) (k : NodeId) : ¬ Under g k n := by
  rintro ⟨c, hc, -⟩
  obtain ⟨cnode, hcnode, hparent⟩ := Option.bind_eq_some_iff.1 hc
  have hmem : c ∈ kids n := (hlinked.mem n c).2 ⟨List.not_mem_nil, cnode, hcnode, hparent⟩
  have hkids := hlinked.chain n node hn
  have hempty : kids n = [] := hkids.unique (Chain.nil_iff.2 hleaf)
  rw [hempty] at hmem
  cases hmem

/-- The loop over the children, when the walk below each of them does its part. -/
theorem deriveSiblings_has {recursive : NodeId → Graph → Option Graph}
    {kids : NodeId → List NodeId} {l : List NodeId} {cur : Option NodeId} {fuel : Nat}
    (hrec : ∀ m g₁ g₂, SameRest g g₁ → Has Exp g₁ m → Ungrafted Exp g₁ →
      recursive m g₁ = some g₂ → Kept Exp g₁ g₂ ∧ ∀ k, Under g₁ k m → Has Exp g₂ k)
    (hlinked : Linked g [] kids) (hinherited : Inherited Exp cfg packages g)
    (hgraft : Ungrafted Exp g) (hchain : Chain g Node.next cur l)
    (hparents : ∀ m ∈ l, parentOf g m = some p) (hhas : Has Exp g p)
    (hderive : deriveSiblings cfg packages recursive p fuel cur g = some g') :
    Kept Exp g g' ∧ ∀ m ∈ l, ∀ k, Above g k m → Has Exp g' k := by
  induction l generalizing g cur fuel with
  | nil =>
      rw [Chain.nil_iff.1 hchain] at hderive
      have hsame : g = g' := by
        cases fuel <;> exact Option.some.inj hderive
      rw [← hsame]
      refine ⟨Kept.refl g, fun m hm => ?_⟩
      cases hm
  | cons m l ih =>
      obtain ⟨rfl, node, hm, hrest⟩ := hchain
      cases fuel with
      | zero => cases hderive
      | succ fuel =>
          rw [deriveSiblings] at hderive
          obtain ⟨pnode, hp, hderive⟩ := Option.bind_eq_some_iff.1 hderive
          obtain ⟨node', hm', hderive⟩ := Option.bind_eq_some_iff.1 hderive
          obtain rfl : node = node' := Option.some.inj (hm.symm.trans hm')
          obtain ⟨g₂, hg₂, hderive⟩ := Option.bind_eq_some_iff.1 hderive
          obtain ⟨node₂, hm₂, hderive⟩ := Option.bind_eq_some_iff.1 hderive
          have hparent : node.parent = some p :=
            (parentOf_eq hm).symm.trans (hparents m (List.mem_cons_self ..))
          obtain ⟨hkept₁, hhas₁⟩ := has_set hinherited hgraft hm hparent hp hhas
          obtain ⟨g₁, hg₁⟩ : ∃ g₁, g.set m (derivePermissions cfg packages pnode node) = g₁ :=
            ⟨_, rfl⟩
          rw [hg₁] at hkept₁ hhas₁ hg₂
          -- below the child: nothing, or what the recursion does
          obtain ⟨hkept₂, hbelow₂⟩ : Kept Exp g₁ g₂ ∧ ∀ k, Under g₁ k m → Has Exp g₂ k := by
            split at hg₂
            · exact hrec m g₁ g₂ hkept₁.rest hhas₁ (hkept₁.ungrafted hgraft) hg₂
            · rename_i hleaf
              rw [← Option.some.inj hg₂]
              refine ⟨Kept.refl g₁, fun k hunder => ?_⟩
              exact absurd (hunder.congr hkept₁.rest.symm.shapes)
                (not_under_of_leaf hlinked hm (Option.not_isSome_iff_eq_none.1 hleaf) k)
          have hkept := hkept₁.trans hkept₂
          have hshapes := hkept.rest.shapes
          obtain ⟨old, hold, hsame⟩ := hkept.rest.back hm₂
          obtain rfl : node = old := Option.some.inj (hm.symm.trans hold)
          have hnext : node₂.next = node.next := by
            show node₂.rest.next = node.rest.next
            rw [hsame]
          rw [hnext] at hderive
          obtain ⟨hkept₃, hbelow₃⟩ := ih
            (fun b g₃ g₄ hrest' => hrec b g₃ g₄ (hkept.rest.trans hrest'))
            (hlinked.sameShapes hshapes) (hinherited.congr hkept.rest) (hkept.ungrafted hgraft)
            (hrest.congr fun b _ => hshapes.next b)
            (fun b hb => (hshapes.parentOf b).trans (hparents b (List.mem_cons_of_mem m hb)))
            (hkept.has p hhas) hderive
          refine ⟨hkept.trans hkept₃, fun b hb k habove => ?_⟩
          obtain rfl | hb := List.mem_cons.1 hb
          · obtain rfl | hunder := above_iff_under.1 habove
            · exact hkept₃.has k (hkept₂.has k hhas₁)
            · exact hkept₃.has k (hbelow₂ k (hunder.congr hkept₁.rest.shapes))
          · exact hbelow₃ b hb k (habove.mono fun c q hq => (hshapes.parentOf c).trans hq)

/-- The walk below a node that has what is expected of it leaves everything below with it too. -/
theorem deriveWithin_has {kids : NodeId → List NodeId} {depth : Nat} (hlinked : Linked g [] kids)
    (hinherited : Inherited Exp cfg packages g) (hgraft : Ungrafted Exp g) (hhas : Has Exp g p)
    (hderive : deriveWithin cfg packages depth p g = some g') :
    Kept Exp g g' ∧ ∀ k, Under g k p → Has Exp g' k := by
  induction depth generalizing p g g' with
  | zero => cases hderive
  | succ depth ih =>
      rw [deriveWithin] at hderive
      obtain ⟨pnode, hp, hderive⟩ := Option.bind_eq_some_iff.1 hderive
      obtain ⟨hkept, hbelow⟩ := deriveSiblings_has
        (fun m g₁ g₂ hrest hm hgraft₁ hrec => ih (hlinked.sameShapes hrest.shapes)
          (hinherited.congr hrest) hgraft₁ hm hrec)
        hlinked hinherited hgraft (hlinked.chain p pnode hp) (fun m hm => by
          obtain ⟨-, mnode, hmnode, hparent⟩ := (hlinked.mem p m).1 hm
          exact (parentOf_eq hmnode).trans hparent) hhas hderive
      refine ⟨hkept, fun k hunder => ?_⟩
      obtain ⟨c, hc, habove⟩ := hunder
      obtain ⟨cnode, hcnode, hparent⟩ := Option.bind_eq_some_iff.1 hc
      exact hbelow c ((hlinked.mem p c).2 ⟨List.not_mem_nil, cnode, hcnode, hparent⟩) k habove

end Walk

/-! ### Paths -/

/-- Every node but `c` has the parent and the name that it has in `g₀`. -/
def NamedAs (g₀ : Graph) (c : Option NodeId) (g : Graph) : Prop :=
  ∀ m node, some m ≠ c → g m = some node →
    ∃ node₀, g₀ m = some node₀ ∧ node₀.parent = node.parent ∧ node₀.name = node.name

theorem NamedAs.of_thins (h : Heap.Thins (fun node => (node.parent, node.name)) g g')
    (c : Option NodeId) : NamedAs g c g' := by
  intro m node' _ hm
  obtain ⟨node, hnode, hsame⟩ := h m node' hm
  obtain ⟨hparent, hname⟩ := Prod.mk.inj hsame
  exact ⟨node, hnode, hparent.symm, hname.symm⟩

theorem Keeps.namedAs (h : Keeps g g') (c : Option NodeId) : NamedAs g c g' :=
  .of_thins (Heap.Thins.comp h fun node => (node.parent, node.name)) c

theorem SameRest.namedAs (h : SameRest g g') (c : Option NodeId) : NamedAs g c g' :=
  .of_thins (Heap.Agree.comp h fun node => (node.parent, node.name)).thins c

theorem namedAs_set (g : Graph) (c : NodeId) (cnode : Node) :
    NamedAs g (some c) (g.set c cnode) := by
  intro m node hmc hm
  rw [Graph.set_of_ne fun heq => hmc (congrArg some heq)] at hm
  exact ⟨node, hm, rfl, rfl⟩

theorem NamedAs.trans {c : Option NodeId} {g₁ g₂ g₃ : Graph} (h : NamedAs g₁ c g₂)
    (h' : NamedAs g₂ c g₃) : NamedAs g₁ c g₃ := by
  intro m node₃ hmc hm₃
  obtain ⟨node₂, hm₂, hparent, hname⟩ := h' m node₃ hmc hm₃
  obtain ⟨node₁, hm₁, hparent', hname'⟩ := h m node₂ hmc hm₂
  exact ⟨node₁, hm₁, hparent'.trans hparent, hname'.trans hname⟩

/-- Above `c` the chains of parents are those of `g₀`. -/
theorem NamedAs.above {g₀ : Graph} {c m : NodeId} (h : NamedAs g₀ (some c) g)
    (habove : Above g m c) : Above g₀ m c := by
  induction habove using Relation.ReflTransGen.head_induction_on with
  | refl => exact Relation.ReflTransGen.refl
  | @head a b hstep _ ih =>
      by_cases hac : a = c
      · rw [hac]
        exact Relation.ReflTransGen.refl
      · obtain ⟨anode, hanode, hparent⟩ := Option.bind_eq_some_iff.1 hstep
        obtain ⟨anode₀, hanode₀, hparent₀, -⟩ :=
          h a anode (fun heq => hac (Option.some.inj heq)) hanode
        exact ih.head ((parentOf_eq hanode₀).trans (hparent₀.trans hparent))

theorem PathFrom.above (h : PathFrom g top n names) : Above g n top := by
  induction h with
  | here => exact Relation.ReflTransGen.refl
  | down hn hparent _ ih => exact ih.head ((parentOf_eq hn).trans hparent)

theorem Above.path (h : Above g n top) : ∃ names, PathFrom g top n names := by
  induction h using Relation.ReflTransGen.head_induction_on with
  | refl => exact ⟨[], .here⟩
  | head hstep _ ih =>
      obtain ⟨names, hpath⟩ := ih
      obtain ⟨node, hnode, hparent⟩ := Option.bind_eq_some_iff.1 hstep
      exact ⟨_, .down hnode hparent hpath⟩

theorem PathFrom.of_namedAs {g₀ : Graph} (h : NamedAs g₀ none g)
    (hpath : PathFrom g top n names) : PathFrom g₀ top n names := by
  induction hpath with
  | here => exact .here
  | down hn hparent _ ih =>
      obtain ⟨node₀, hnode₀, hparent₀, hname₀⟩ := h _ _ (Option.some_ne_none _) hn
      rw [← hname₀]
      exact .down hnode₀ (hparent₀.trans hparent) ih

/-- A path that does not meet `c`. -/
theorem PathFrom.clear {g₀ : Graph} {c : NodeId} (h : NamedAs g₀ (some c) g)
    (hpath : PathFrom g top n names) (hclear : ¬ Above g n c) : PathFrom g₀ top n names := by
  induction hpath with
  | here => exact .here
  | down hn hparent _ ih =>
      obtain ⟨node₀, hnode₀, hparent₀, hname₀⟩ := h _ _ (fun heq => hclear (by
        rw [Option.some.inj heq]
        exact Relation.ReflTransGen.refl)) hn
      rw [← hname₀]
      exact .down hnode₀ (hparent₀.trans hparent)
        (ih fun habove => hclear (habove.head ((parentOf_eq hn).trans hparent)))

/-- A path from `c` down, where `c` is not below itself. -/
theorem PathFrom.under {g₀ : Graph} {c : NodeId} (h : NamedAs g₀ (some c) g)
    (hpath : PathFrom g c n names) (hloop : ∀ q, parentOf g c = some q → ¬ Above g q c) :
    PathFrom g₀ c n names := by
  induction hpath with
  | here => exact .here
  | down hn hparent hrest ih =>
      have hstep := (parentOf_eq hn).trans hparent
      obtain ⟨node₀, hnode₀, hparent₀, hname₀⟩ := h _ _ (fun heq => by
        rw [Option.some.inj heq] at hstep
        exact hloop _ hstep hrest.above) hn
      rw [← hname₀]
      exact .down hnode₀ (hparent₀.trans hparent) ih

/-- A path from a node without a parent stays clear of `c` or passes it. -/
theorem PathFrom.split (h : PathFrom g top n names) (htop : parentOf g top = none) (c : NodeId) :
    ¬ Above g n c ∨ ∃ before after, names = before ++ after ∧ PathFrom g top c before ∧
      PathFrom g c n after := by
  induction h with
  | here =>
      by_cases htc : top = c
      · subst htc
        exact Or.inr ⟨[], [], rfl, .here, .here⟩
      · apply Or.inl
        intro habove
        obtain heq | ⟨q, hstep, -⟩ := Relation.ReflTransGen.cases_head habove
        · exact htc heq
        · rw [htop] at hstep
          cases hstep
  | @down m q node names hn hparent hpath ih =>
      by_cases hmc : m = c
      · subst hmc
        exact Or.inr ⟨names ++ [node.name], [], (List.append_nil _).symm,
          .down hn hparent hpath, .here⟩
      obtain hclear | ⟨before, after, rfl, hbefore, hafter⟩ := ih
      · apply Or.inl
        intro habove
        obtain heq | ⟨q', hstep, hrest⟩ := Relation.ReflTransGen.cases_head habove
        · exact hmc heq
        · rw [parentOf_eq hn, hparent] at hstep
          rw [← Option.some.inj hstep] at hrest
          exact hclear hrest
      · exact Or.inr ⟨before, after ++ [node.name], List.append_assoc .., hbefore,
          .down hn hparent hafter⟩

theorem PathFrom.root_nil (h : PathFrom g top top names) (htop : parentOf g top = none) :
    names = [] := by
  cases h with
  | here => rfl
  | down hn hparent _ =>
      rw [parentOf_eq hn, hparent] at htop
      cases htop

/-! ### The place of a node -/

/-- What a place has: the last of a chain of new nodes on a path to it. -/
def Expected (cfg : Config) (packages : AppIdMap) (root : Node) (g : Graph) (n : NodeId)
    (d : Derived) : Prop :=
  ∃ names, PathFrom g rootId n names ∧ d = (freshChain cfg packages root names).derived

/-- Every node has what its place has. -/
def Placed (cfg : Config) (root : Node) (s : System) : Prop :=
  ∀ n, Has (Expected cfg s.shared.packages root s.shared.nodes) s.shared.nodes n

/-- A node that has a parent has the one, and the name, that it is expected by. -/
theorem inherited_expected {g₀ : Graph} (h : ∀ n node p, g n = some node → node.parent = some p →
      ∃ node₀, g₀ n = some node₀ ∧ node₀.parent = node.parent ∧ node₀.name = node.name)
    (hroot : parentOf g₀ rootId = none) :
    Inherited (Expected cfg packages root g₀) cfg packages g := by
  intro n node p d hn hparent hexp
  obtain ⟨names, hpath, rfl⟩ := hexp
  obtain ⟨node₀, hnode₀, hparent₀, hname₀⟩ := h n node p hn hparent
  cases hpath with
  | here =>
      rw [parentOf_eq hnode₀, hparent₀, hparent] at hroot
      cases hroot
  | @down _ q node' names hn' hparent' hpath =>
      obtain rfl : node₀ = node' := Option.some.inj (hnode₀.symm.trans hn')
      rw [hparent₀, hparent] at hparent'
      obtain rfl : p = q := Option.some.inj hparent'
      refine ⟨freshChain cfg packages root names, ⟨names, hpath, rfl⟩, ?_⟩
      rw [freshChain_concat, hname₀]

/-- The list of packages has no part in what is grafted. -/
theorem freshChain_graft (cfg : Config) (packages packages' : AppIdMap) (root : Node)
    (names : List Bytes) :
    (freshChain cfg packages root names).perm = (freshChain cfg packages' root names).perm ∧
      (freshChain cfg packages root names).graftPath =
        (freshChain cfg packages' root names).graftPath := by
  induction names using List.reverseRecOn with
  | nil => exact ⟨rfl, rfl⟩
  | append_singleton names name ih =>
      rw [freshChain_concat, freshChain_concat]
      unfold derivePermissions
      rw [ih.1]
      cases (freshChain cfg packages' root names).perm with
      | inherit => exact ⟨rfl, rfl⟩
      | preRoot => exact ⟨rfl, rfl⟩
      | root =>
          dsimp only
          split <;> exact ⟨rfl, rfl⟩
      | android =>
          dsimp only
          split
          · exact ⟨rfl, rfl⟩
          split
          · exact ⟨rfl, rfl⟩
          split <;> exact ⟨rfl, rfl⟩
      | androidData | androidObb | androidMedia =>
          dsimp only
          split <;> split <;> exact ⟨rfl, rfl⟩

end LineageA1000.Fuse
