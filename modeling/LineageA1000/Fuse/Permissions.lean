import LineageA1000.Fuse.Place

/-!
# Permissions over a run

One case for each thing a step can do to the nodes. All of them leave every node with what its place
has, except a rename that takes a node with a graft path to a place without one.
-/

namespace LineageA1000.Fuse

variable {cfg : Config} {root : Node} {s s' : System} {e : Event} {g g' : Graph} {n : NodeId}

/-- The nodes that are left are where they were, with what they had. -/
theorem Placed.stays (h : Placed cfg root s)
    (hnamed : NamedAs s.shared.nodes none s'.shared.nodes)
    (hderived : Heap.Thins Node.derived s.shared.nodes s'.shared.nodes)
    (hpackages : s'.shared.packages = s.shared.packages) : Placed cfg root s' := by
  intro m node' d hm hexp
  rw [hpackages] at hexp
  obtain ⟨names, hpath, rfl⟩ := hexp
  obtain ⟨node, hnode, hsame⟩ := hderived m node' hm
  rw [hsame]
  exact h m node _ hnode ⟨names, hpath.of_namedAs hnamed, rfl⟩

theorem Keeps.derived (h : Keeps g g') : Heap.Thins Node.derived g g' :=
  Heap.Thins.comp h Node.derived

/-- Nothing is below a node that has just been put into the tree. -/
theorem not_above_of_fresh {g : Graph} {p c : NodeId} {cnode : Node}
    (hunder : ∀ m, parentOf g m ≠ some c) (hparent : parentOf (g.set c cnode) c = some p)
    (hpc : p ≠ c) : ∀ m, m ≠ c → ¬ Above (g.set c cnode) m c := by
  intro m hmc habove
  obtain heq | ⟨q, -, hstep⟩ := Relation.ReflTransGen.cases_tail habove
  · exact hmc heq.symm
  by_cases hqc : q = c
  · subst hqc
    rw [hparent] at hstep
    exact hpc (Option.some.inj hstep)
  · rw [parentOf, Graph.set_of_ne hqc] at hstep
    exact hunder q hstep

/-- A new node has what a new node has there. -/
theorem Placed.creates {lost : NodeId → Nat} {p c : NodeId} {name : Bytes}
    (h : Placed cfg root s) (hinv : Inv lost s)
    (hcreated : Created cfg s.shared p name c s'.shared.nodes)
    (hpackages : s'.shared.packages = s.shared.packages) : Placed cfg root s' := by
  obtain ⟨pnode, actualName, hp, hkeeps⟩ := hcreated.keeps
  obtain ⟨cnode, hcnode⟩ : ∃ cnode, cnode =
      { derivePermissions cfg s.shared.packages pnode (newNode s.shared name actualName) with
        parent := some p } := ⟨_, rfl⟩
  rw [← hcnode] at hkeeps
  have hnamed : NamedAs s.shared.nodes (some c) (s.shared.nodes.set c cnode) :=
    namedAs_set s.shared.nodes c cnode
  have hcparent : parentOf (s.shared.nodes.set c cnode) c = some p := by
    rw [parentOf_eq (Graph.set_self ..), hcnode]
  have hpc : p ≠ c := by
    rintro rfl
    rw [hcreated.fresh] at hp
    cases hp
  have hclear := not_above_of_fresh (fun m hm => hinv.parent_live hm hcreated.fresh) hcparent hpc
  intro m node' d hm hexp
  rw [hpackages] at hexp
  obtain ⟨names, hpath, rfl⟩ := hexp
  have hpath₁ := hpath.of_namedAs (hkeeps.namedAs none)
  obtain ⟨node, hnode, hsame⟩ := hkeeps.derived m node' hm
  rw [hsame]
  by_cases hmc : m = c
  · subst hmc
    rw [Graph.set_self] at hnode
    obtain rfl := Option.some.inj hnode
    cases hpath₁ with
    | here => exact absurd hcreated.fresh hinv.root_live
    | @down _ q cnode' names hcnode' hparent' hpath' =>
        rw [Graph.set_self] at hcnode'
        obtain rfl : cnode = cnode' := Option.some.inj hcnode'
        rw [← parentOf_eq (Graph.set_self s.shared.nodes m cnode), hcparent] at hparent'
        obtain rfl : p = q := Option.some.inj hparent'
        have hparent := h p pnode _ hp ⟨names, hpath'.clear hnamed (hclear p hpc), rfl⟩
        have hname : cnode.name = name := by
          rw [hcnode]
          show (derivePermissions cfg s.shared.packages pnode
            (newNode s.shared name actualName)).rest.name = name
          rw [derivePermissions_rest]
          rfl
        rw [hname, freshChain_concat]
        have hderived := derivePermissions_derived cfg s.shared.packages hparent
          (newNode s.shared name actualName)
        rw [show (newNode s.shared name actualName).graftPath = none from rfl, Option.or_none]
          at hderived
        rw [hcnode]
        exact hderived
  · rw [Graph.set_of_ne hmc] at hnode
    exact h m node _ hnode ⟨names, hpath₁.clear hnamed (hclear m hmc), rfl⟩

/-- The list of packages has been read again. -/
theorem Placed.reloads {packages : AppIdMap} (h : Placed cfg root s) (hstanding : Standing s)
    (hderive : derivePermissionsRecursive cfg packages rootId s.shared.nodes =
      some s'.shared.nodes) (hpackages : s'.shared.packages = packages) : Placed cfg root s' := by
  obtain ⟨lost, hinv⟩ := hstanding.inv
  obtain ⟨kids, hlinked⟩ := hinv.balanced.linked
  have hgraft : Ungrafted (Expected cfg packages root s.shared.nodes) s.shared.nodes := by
    intro m node d hm hexp hnone
    obtain ⟨names, hpath, rfl⟩ := hexp
    have hderived := congrArg Derived.graftPath (h m node _ hm ⟨names, hpath, rfl⟩)
    refine hderived.trans (Eq.trans ?_ hnone)
    exact (freshChain_graft cfg s.shared.packages packages root names).2
  have htop : Has (Expected cfg packages root s.shared.nodes) s.shared.nodes rootId := by
    intro node d hm hexp
    obtain ⟨names, hpath, rfl⟩ := hexp
    rw [hpath.root_nil hstanding.root]
    exact h rootId node _ hm ⟨[], .here, rfl⟩
  obtain ⟨hkept, hunder⟩ := deriveWithin_has hlinked
    (inherited_expected (fun m mnode _ hm _ => ⟨mnode, hm, rfl, rfl⟩) hstanding.root)
    hgraft htop hderive
  intro m node' d hm hexp
  rw [hpackages] at hexp
  obtain ⟨names, hpath, rfl⟩ := hexp
  have hpath₀ := hpath.of_namedAs (hkept.rest.namedAs none)
  have hhas : Has (Expected cfg packages root s.shared.nodes) s'.shared.nodes m := by
    obtain rfl | hbelow := above_iff_under.1 hpath₀.above
    · exact hkept.has _ htop
    · exact hunder m hbelow
  exact hhas node' _ hm ⟨names, hpath₀, rfl⟩

/-! ### Renaming -/

/-- The relink of a rename takes `c` below `p` under a new name, and with it a node with a graft
path comes to a place without one. -/
def Ungrafts (cfg : Config) (root : Node) (s : System) (e : Event) : Prop :=
  ∃ v o p newName newActualName c, e = .run v o ∧
    s.threads v = .relink p newName newActualName c ∧
    (∀ node, s.shared.nodes c = some node →
      (renameNode o.memory newName newActualName node).isSome) ∧
    ∃ n node above below, s.shared.nodes n = some node ∧ node.graftPath ≠ none ∧
      PathFrom s.shared.nodes rootId p above ∧ PathFrom s.shared.nodes c n below ∧
      (freshChain cfg s.shared.packages root (above ++ [newName] ++ below)).graftPath = none

theorem renameNode_derived {memory : Bool} {name actualName : Bytes} {node renamed : Node}
    (hrename : renameNode memory name actualName node = some renamed) :
    renamed.derived = node.derived ∧ renamed.name = name := by
  rw [renameNode] at hrename
  split at hrename
  · cases hrename
  · obtain rfl := Option.some.inj hrename
    exact ⟨rfl, rfl⟩

/-- The graph in which the child of a rename hangs on its new parent already, before anything is
derived there. -/
structure Hung (s : System) (p c : NodeId) (newName : Bytes) (t : Graph) : Prop where
  named : NamedAs s.shared.nodes (some c) t
  child : ∃ node, t c = some node ∧ node.parent = some p ∧ node.name = newName
  derived : Heap.Thins Node.derived s.shared.nodes t

theorem hung_of_keeps {p c : NodeId} {g₁ : Graph} {node renamed node₁ : Node} {newName : Bytes}
    (hnode : s.shared.nodes c = some node) (hrenamed : renamed.derived = node.derived)
    (hname : renamed.name = newName)
    (hkeeps : Keeps (s.shared.nodes.set c { renamed with parent := none }) g₁)
    (hnode₁ : g₁ c = some node₁) :
    Hung s p c newName (g₁.set c { node₁ with parent := some p }) := by
  refine ⟨((namedAs_set _ c _).trans (hkeeps.namedAs (some c))).trans (namedAs_set _ c _),
    ⟨_, Graph.set_self .., rfl, ?_⟩, ?_⟩
  · have hsame : node₁.name = renamed.name :=
      (Heap.Thins.comp hkeeps Node.name).eq_update hnode₁
    exact hsame.trans hname
  · have hbefore : Heap.Agree Node.derived s.shared.nodes
        (s.shared.nodes.set c { renamed with parent := none }) := Heap.Agree.update hnode hrenamed
    have hafter : Heap.Agree Node.derived g₁ (g₁.set c { node₁ with parent := some p }) :=
      Heap.Agree.update hnode₁ rfl
    exact (hbefore.thins.trans hkeeps.derived).trans hafter.thins

namespace Hung

variable {p c : NodeId} {newName : Bytes} {t : Graph}

theorem clear (h : Hung s p c newName t) (hout : ¬ Above s.shared.nodes p c) : ¬ Above t p c :=
  fun habove => hout (h.named.above habove)

theorem root_ne (hstanding : Standing s) (hp : s.shared.nodes p ≠ none)
    (hout : ¬ Above s.shared.nodes p c) : rootId ≠ c := by
  rintro rfl
  exact hout (hstanding.rooted p hp)

theorem top (h : Hung s p c newName t) (hstanding : Standing s) (hroot : rootId ≠ c) :
    parentOf t rootId = none := by
  by_contra hparent
  obtain ⟨q, hq⟩ := Option.ne_none_iff_exists'.1 hparent
  obtain ⟨rnode, hrnode, hrparent⟩ := Option.bind_eq_some_iff.1 hq
  obtain ⟨rnode₀, hrnode₀, hrparent₀, -⟩ :=
    h.named rootId rnode (fun heq => hroot (Option.some.inj heq)) hrnode
  have hnone := hstanding.root
  rw [parentOf_eq hrnode₀, hrparent₀, hrparent] at hnone
  cases hnone

/-- What is not below the child has what its place has, as it had. -/
theorem has (h : Hung s p c newName t) (hplaced : Placed cfg root s) (hn : ¬ Above t n c) :
    Has (Expected cfg s.shared.packages root t) t n := by
  intro node d hnode hexp
  obtain ⟨names, hpath, rfl⟩ := hexp
  obtain ⟨node₀, hnode₀, hsame⟩ := h.derived n node hnode
  rw [hsame]
  exact hplaced n node₀ _ hnode₀ ⟨names, hpath.clear h.named hn, rfl⟩

theorem ungrafted (h : Hung s p c newName t) (hplaced : Placed cfg root s)
    (htop : parentOf t rootId = none) (hroot : rootId ≠ c) (hclear : ¬ Above t p c)
    (hungrafts : ∀ n node above below, s.shared.nodes n = some node → node.graftPath ≠ none →
      PathFrom s.shared.nodes rootId p above → PathFrom s.shared.nodes c n below →
      (freshChain cfg s.shared.packages root (above ++ [newName] ++ below)).graftPath ≠ none) :
    Ungrafted (Expected cfg s.shared.packages root t) t := by
  intro m mnode d hmnode hexp hnone
  obtain ⟨names, hpath, rfl⟩ := hexp
  obtain hm | ⟨before, after, rfl, hbefore, hafter⟩ := hpath.split htop c
  · have hgraft := congrArg Derived.graftPath (h.has hplaced hm mnode _ hmnode ⟨names, hpath, rfl⟩)
    exact hgraft.trans hnone
  · -- the path leads through the child
    by_contra hgrafted
    obtain ⟨mnode₀, hmnode₀, hsame⟩ := h.derived m mnode hmnode
    obtain ⟨cnode, hcnode, hcparent, hcname⟩ := h.child
    cases hbefore with
    | here => exact hroot rfl
    | @down _ q cnode' above hcnode' hcparent' habove =>
        obtain rfl : cnode = cnode' := Option.some.inj (hcnode.symm.trans hcnode')
        obtain rfl : p = q := Option.some.inj (hcparent.symm.trans hcparent')
        refine hungrafts m mnode₀ above after hmnode₀ ?_ (habove.clear h.named hclear)
          (hafter.under h.named fun q' hq' => ?_) ?_
        · rw [← show mnode.graftPath = mnode₀.graftPath from congrArg Derived.graftPath hsame]
          exact hgrafted
        · rw [parentOf_eq hcnode, hcparent] at hq'
          rw [← Option.some.inj hq']
          exact hclear
        · rw [← hcname]
          exact hnone

/-- The derivation for the child and for what is below it, as if the child hung on its new parent
already. -/
theorem derives (h : Hung s p c newName t) (hplaced : Placed cfg root s)
    (htop : parentOf t rootId = none) (hclear : ¬ Above t p c)
    (hgraft : Ungrafted (Expected cfg s.shared.packages root t) t) {g₁ g₃ : Graph}
    {kids : NodeId → List NodeId} {node₁ dnode : Node}
    (ht : t = g₁.set c { node₁ with parent := some p }) (hlinked : Linked g₁ [] kids)
    (hnode₁ : g₁ c = some node₁) (horphan : node₁.parent = none) (hdnode : g₁ p = some dnode)
    (hderive : derivePermissionsRecursive cfg s.shared.packages c
      (g₁.set c (derivePermissions cfg s.shared.packages dnode node₁)) = some g₃) :
    SameRest (g₁.set c (derivePermissions cfg s.shared.packages dnode node₁)) g₃ ∧
      ∀ m names, PathFrom t rootId m names →
        Has (Expected cfg s.shared.packages root t) g₃ m := by
  have hpc : p ≠ c := by
    rintro rfl
    exact hclear Relation.ReflTransGen.refl
  have htc : t c = some { node₁ with parent := some p } := by
    rw [ht]
    exact Graph.set_self ..
  have htne : ∀ m, m ≠ c → t m = g₁ m := by
    intro m hmc
    rw [ht]
    exact Graph.set_of_ne hmc ..
  obtain ⟨hkept₁, hhasc⟩ := has_set (inherited_expected
    (fun m mnode _ hm _ => ⟨mnode, hm, rfl, rfl⟩) htop) hgraft htc rfl
    ((htne p hpc).trans hdnode) (h.has hplaced hclear)
  obtain ⟨g₂, hg₂⟩ : ∃ g₂, g₂ = g₁.set c (derivePermissions cfg s.shared.packages dnode node₁) :=
    ⟨_, rfl⟩
  have hg₂ne : ∀ m, m ≠ c → g₂ m = g₁ m := by
    intro m hmc
    rw [hg₂]
    exact Graph.set_of_ne hmc ..
  -- the parent pointer makes no difference to what is derived
  have hsame : Heap.Agree Node.derived (t.set c (derivePermissions cfg s.shared.packages dnode
      { node₁ with parent := some p })) g₂ := by
    rw [hg₂, ht, Graph.set_set]
    apply (Heap.Agree.refl Node.derived g₁).update_both
    rw [derivePermissions_parent cfg s.shared.packages dnode node₁ (some p)]
    rfl
  rw [← hg₂] at hderive ⊢
  have hlinked₂ : Linked g₂ [] kids := by
    rw [hg₂]
    exact hlinked.sameShapes (SameShapes.set hnode₁ (derivePermissions_shape ..))
  have hinherited₂ :
      Inherited (Expected cfg s.shared.packages root t) cfg s.shared.packages g₂ := by
    refine inherited_expected (fun m mnode q hm hparent => ?_) htop
    by_cases hmc : m = c
    · subst hmc
      rw [hg₂, Graph.set_self] at hm
      have hrest := derivePermissions_rest cfg s.shared.packages dnode node₁
      rw [Option.some.inj hm] at hrest
      rw [rest_parent hrest, horphan] at hparent
      cases hparent
    · rw [hg₂ne m hmc] at hm
      exact ⟨mnode, (htne m hmc).trans hm, rfl, rfl⟩
  obtain ⟨hkept₃, hunder₃⟩ := deriveWithin_has hlinked₂ hinherited₂
    ((hkept₁.ungrafted hgraft).congr hsame.thins) (hhasc.congr hsame.thins) hderive
  refine ⟨hkept₃.rest, fun m names hpath => ?_⟩
  obtain hm | ⟨before, after, rfl, -, hafter⟩ := hpath.split htop c
  · exact hkept₃.has m ((hkept₁.has m (h.has hplaced hm)).congr hsame.thins)
  · have hpath₂ : PathFrom g₂ c m after := by
      refine hafter.under (fun k knode hkc hk => ?_) fun q hq => ?_
      · have hkc : k ≠ c := fun heq => hkc (congrArg some heq)
        rw [htne k hkc] at hk
        exact ⟨knode, (hg₂ne k hkc).trans hk, rfl, rfl⟩
      · rw [parentOf_eq htc] at hq
        rw [← Option.some.inj hq]
        exact hclear
    obtain rfl | hunder := above_iff_under.1 hpath₂.above
    · exact hkept₃.has _ (hhasc.congr hsame.thins)
    · exact hunder₃ m hunder

end Hung

/-- A rename that takes no graft path where none belongs. -/
theorem Placed.relinks {o : Outside} {p c : NodeId} {newName newActualName : Bytes} {g : Graph}
    (h : Placed cfg root s) (hstanding : Standing s)
    (hrelinked : Relinked cfg o s.shared p newName newActualName c g)
    (hkeeps : Keeps g s'.shared.nodes) (hpackages : s'.shared.packages = s.shared.packages)
    (hp : s.shared.nodes p ≠ none) (hout : ¬ Above s.shared.nodes p c)
    (hungrafts : ∀ n node above below, s.shared.nodes n = some node → node.graftPath ≠ none →
      PathFrom s.shared.nodes rootId p above → PathFrom s.shared.nodes c n below →
      (freshChain cfg s.shared.packages root (above ++ [newName] ++ below)).graftPath ≠ none) :
    Placed cfg root s' := by
  obtain ⟨node, renamed, g₁, kids, dnode, node₁, g₃, node₃, hnode, hrename, hkeeps₁, hlinked₁,
    hdnode, hnode₁, hderive, hnode₃, hkeeps₃⟩ := hrelinked.steps
  obtain ⟨hrenamed, hname⟩ := renameNode_derived hrename
  obtain ⟨t, ht⟩ : ∃ t, t = g₁.set c { node₁ with parent := some p } := ⟨_, rfl⟩
  have hhung : Hung s p c newName t := by
    rw [ht]
    exact hung_of_keeps hnode hrenamed hname hkeeps₁ hnode₁
  have hroot := Hung.root_ne hstanding hp hout
  have htop := hhung.top hstanding hroot
  have hclear := hhung.clear hout
  have horphan : node₁.parent = none := (Heap.Thins.comp hkeeps₁ Node.parent).eq_update hnode₁
  obtain ⟨hrest, hhas⟩ := hhung.derives h htop hclear
    (hhung.ungrafted h htop hroot hclear hungrafts) ht hlinked₁ hnode₁ horphan hdnode hderive
  have hkeeps' := hkeeps₃.trans hkeeps
  have hnamed : NamedAs t none s'.shared.nodes := by
    obtain ⟨derived, hderived⟩ : ∃ derived,
      derived = derivePermissions cfg s.shared.packages dnode node₁ := ⟨_, rfl⟩
    have hdrest : derived.rest = node₁.rest := by
      rw [hderived]
      exact derivePermissions_rest ..
    rw [← hderived] at hrest
    have hplaced : Heap.Agree Node.rest t (g₁.set c { derived with parent := some p }) := by
      rw [ht]
      apply (Heap.Agree.refl Node.rest g₁).update_both
      exact congrArg (fun node => ({ node with parent := some p } : Node)) hdrest
    have hafter : Heap.Agree Node.rest
        ((g₁.set c derived).set c { derived with parent := some p })
        (g₃.set c { node₃ with parent := some p }) := by
      apply Heap.Agree.update_both hrest
      exact congrArg (fun node => ({ node with parent := some p } : Node))
        (hrest.thins.eq_update hnode₃)
    rw [Graph.set_set] at hafter
    have hall : SameRest t (g₃.set c { node₃ with parent := some p }) := hplaced.trans hafter
    exact (hall.namedAs none).trans (hkeeps'.namedAs none)
  have hderived : Heap.Thins Node.derived g₃ s'.shared.nodes := by
    have hset : Heap.Agree Node.derived g₃ (g₃.set c { node₃ with parent := some p }) :=
      Heap.Agree.update hnode₃ rfl
    exact hset.thins.trans hkeeps'.derived
  intro m node' d hm hexp
  rw [hpackages] at hexp
  obtain ⟨names, hpath, rfl⟩ := hexp
  have hpath₀ := hpath.of_namedAs hnamed
  exact (hhas m names hpath₀).congr hderived node' _ hm ⟨names, hpath₀, rfl⟩

/-! ### Runs -/

theorem Placed.step (h : Placed cfg root s) (hstanding : Standing s) (hroom : Room s e)
    (hloop : ¬ ClosesLoop s e) (hungrafts : ¬ Ungrafts cfg root s e) :
    Placed cfg root (Fuse.step cfg s e) := by
  obtain ⟨lost, hinv⟩ := hstanding.inv
  cases hstanding.effect cfg hroom with
  | stays hstays =>
      exact h.stays (hstays.1.namedAs none) hstays.1.derived hstays.2
  | creates v o p name actualName c hevent hpc hmissing hcreated hpackages =>
      exact h.creates hinv hcreated hpackages
  | marks v o p name c node hevent hpc hfound hnode hnodes hpackages =>
      have hplace : Heap.Agree (fun mnode => (mnode.parent, mnode.name)) s.shared.nodes
          (s.shared.nodes.set c { node with deleted := true }) := Heap.Agree.update hnode rfl
      have hderived : Heap.Agree Node.derived s.shared.nodes
          (s.shared.nodes.set c { node with deleted := true }) := Heap.Agree.update hnode rfl
      rw [← hnodes] at hplace hderived
      exact h.stays (.of_thins hplace.thins none) hderived.thins hpackages
  | relinks v o p newName newActualName c g hevent hpc hrelinked hkeeps hpackages =>
      have hmemory : ∀ node, s.shared.nodes c = some node →
          (renameNode o.memory newName newActualName node).isSome := fun _ => hrelinked.renames
      have hnamed := hinv.named v p
      rw [hpc] at hnamed
      obtain ⟨pnode, hpnode⟩ := hinv.live (hnamed (List.mem_singleton_self p))
      refine h.relinks hstanding hrelinked hkeeps hpackages ?_ (fun habove => hloop ⟨c, p, ⟨v, o,
        newName, newActualName, hevent, hpc, hmemory⟩, habove⟩)
        fun n node above below hnode hgraft habove hbelow hnone => hungrafts ⟨v, o, p, newName,
          newActualName, c, hevent, hpc, hmemory, n, node, above, below, hnode, hgraft, habove,
          hbelow, hnone⟩
      rw [hpnode]
      exact Option.some_ne_none _
  | reloads packages hevent hderive hpackages => exact h.reloads hstanding hderive hpackages

theorem placed_start (cfg : Config) (multiUser : Bool) (userid : Nat) (disk : Disk) :
    Placed cfg (rootNode cfg multiUser userid) (start cfg multiUser userid disk) := by
  intro n node d hn hexp
  obtain ⟨names, hpath, rfl⟩ := hexp
  obtain ⟨rfl, rfl⟩ := start_nodes_some hn
  rw [hpath.root_nil (standing_start cfg multiUser userid disk).root]
  rfl

/-- Every node is somewhere below the root, and has what a freshly created chain of nodes with the
names on the way to it would get there. -/
def FromPlace (cfg : Config) (root : Node) (s : System) : Prop :=
  ∀ n node, s.shared.nodes n = some node →
    (∃ names, PathFrom s.shared.nodes rootId n names) ∧
      ∀ names, PathFrom s.shared.nodes rootId n names →
        node.derived = (freshChain cfg s.shared.packages root names).derived

/-- However requests of the four views, forgets and new lists of packages follow each other: as long
as no rename takes a node with a graft path to a place without one, no rename closes a loop and no
count overflows, what a node has depends on its place only. -/
theorem derived_from_place (cfg : Config) (multiUser : Bool) (userid : Nat) (disk : Disk)
    (events : List Event)
    (hevents : Run.EachStep (step cfg) (fun s e => (Room s e ∧ ¬ ClosesLoop s e) ∧
      ¬ Ungrafts cfg (rootNode cfg multiUser userid) s e) (start cfg multiUser userid disk)
      events) :
    Run.Always (step cfg) (FromPlace cfg (rootNode cfg multiUser userid))
      (start cfg multiUser userid disk) events := by
  have hboth : Run.Always (step cfg)
      (fun s => Standing s ∧ Placed cfg (rootNode cfg multiUser userid) s)
      (start cfg multiUser userid disk) events := by
    refine Run.always_of_eachStep (fun s e h hok => ?_)
      ⟨standing_start cfg multiUser userid disk, placed_start cfg multiUser userid disk⟩ hevents
    obtain ⟨⟨hroom, hloop⟩, hungrafts⟩ := hok
    exact ⟨standing_step cfg h.1 hroom hloop, h.2.step h.1 hroom hloop hungrafts⟩
  refine hboth.mono fun s h n node hn => ⟨?_, fun names hpath => ?_⟩
  · refine (h.1.rooted n ?_).path
    rw [hn]
    exact Option.some_ne_none _
  · exact h.2 n node _ hn ⟨names, hpath, rfl⟩

/-! ### A move into a special directory, and one out of it -/

/-- The relink of a rename whose child has no children and no graft path. -/
def Pc.bare (g : Graph) : Pc → Bool
  | .relink _ _ _ child =>
      (g child).any fun node => node.child.isNone && node.graftPath.isNone
  | _ => true

def BareStep (s : System) : Event → Prop
  | .run v _ => (s.threads v).bare s.shared.nodes = true
  | _ => True

instance (s : System) : ∀ e : Event, Decidable (BareStep s e)
  | .run _ _ => inferInstanceAs (Decidable (_ = _))
  | .request _ _ | .forget _ _ _ | .reload _ => inferInstanceAs (Decidable True)

theorem not_ungrafts_of_bareStep (hstanding : Standing s) (h : BareStep s e) :
    ¬ Ungrafts cfg root s e := by
  rintro ⟨v, o, p, newName, newActualName, c, rfl, hpc, -, n, node, above, below, hnode, hgraft, -,
    hbelow, -⟩
  rw [BareStep, hpc] at h
  obtain ⟨cnode, hcnode, hbare⟩ := (Option.any_eq_true _ _).1 h
  rw [Bool.and_eq_true, Option.isNone_iff_eq_none, Option.isNone_iff_eq_none] at hbare
  obtain ⟨lost, hinv⟩ := hstanding.inv
  obtain ⟨kids, hlinked⟩ := hinv.balanced.linked
  obtain rfl | hunder := above_iff_under.1 hbelow.above
  · rw [hcnode] at hnode
    rw [← Option.some.inj hnode] at hgraft
    exact hgraft hbare.2
  · exact not_under_of_leaf hlinked hcnode hbare.1 n hunder

/-- A card with the special directories of the only user, and a directory beside them. -/
def specialCard : Disk where
  entries := [([0x73], .dir), ([0x73, 0x2F] ++ nameAndroid, .dir),
    ([0x73, 0x2F] ++ nameAndroid ++ [0x2F] ++ nameData, .dir),
    ([0x73, 0x2F] ++ nameAndroid ++ [0x2F] ++ nameObb, .dir), ([0x73, 0x2F, 0x78], .dir)]

def specialConfig : Config where
  sourcePath := [0x73]
  obbPath := [0x73, 0x2F] ++ nameAndroid ++ [0x2F] ++ nameObb
  multiuserGetUid := fun userid appid => userid * 100000 + appid % 100000

/-- `/x` becomes `/Android/data/a`, and then the package `a` is installed. -/
def moveInRun : List Event :=
  lookupEvents .default 1 nameAndroid 2 ++ lookupEvents .default 2 nameData 3 ++
    lookupEvents .default 2 nameObb 5 ++ lookupEvents .default 1 [0x78] 4 ++
    [.request .default (.rename 1 [0x78] 3 [0x61])] ++
    List.replicate 5 (.run .default (smooth none)) ++ [.reload [([0x61], 10057)]]

theorem derived_from_place_moveInRun :
    Run.Always (step specialConfig) (FromPlace specialConfig (rootNode specialConfig false 0))
      (start specialConfig false 0 specialCard) moveInRun := by
  have hsteps : Run.EachStep (step specialConfig)
      (fun s e => Room s e ∧ ClearStep s e ∧ BareStep s e)
      (start specialConfig false 0 specialCard) moveInRun := by decide
  have hstanding : Run.Always (step specialConfig) Standing
      (start specialConfig false 0 specialCard) moveInRun :=
    standing_always specialConfig false 0 specialCard
      (hsteps.mono fun _ _ h => ⟨h.1, not_closesLoop_of_clearStep h.2.1⟩)
  exact derived_from_place specialConfig false 0 specialCard moveInRun
    (Run.eachStep_of_always_of_eachStep (fun _ _ hstanding h =>
      ⟨⟨h.1, not_closesLoop_of_clearStep h.2.1⟩, not_ungrafts_of_bareStep hstanding h.2.2⟩)
      hstanding hsteps)

/-- `/Android/obb` becomes `/y`. -/
def moveOutRun : List Event :=
  lookupEvents .default 1 nameAndroid 2 ++ lookupEvents .default 2 nameObb 3 ++
    [.request .default (.rename 2 nameObb 1 [0x79])] ++
    List.replicate 5 (.run .default (smooth none))

/-- What was `/Android/obb` is still grafted there. -/
theorem obb_keeps_graft :
    ¬ Run.Always (step specialConfig) (FromPlace specialConfig (rootNode specialConfig false 0))
      (start specialConfig false 0 specialCard) moveOutRun := by
  intro halways
  have hplace := halways.final
  obtain ⟨node, hnode, hparent, hname, hgraft⟩ : ∃ node,
      (Run.final (step specialConfig) (start specialConfig false 0 specialCard)
        moveOutRun).shared.nodes 3 = some node ∧ node.parent = some rootId ∧
        node.name = [0x79] ∧ node.graftPath = some specialConfig.obbPath := by
    refine ⟨((Run.final (step specialConfig) (start specialConfig false 0 specialCard)
      moveOutRun).shared.nodes 3).get (by decide), (Option.some_get _).symm, ?_⟩
    decide
  have hderived := (hplace 3 node hnode).2 _ (.down hnode hparent .here)
  have hkept := congrArg Derived.graftPath hderived
  rw [hname] at hkept
  have hfresh : (freshChain specialConfig (Run.final (step specialConfig)
      (start specialConfig false 0 specialCard) moveOutRun).shared.packages
      (rootNode specialConfig false 0) [[0x79]]).graftPath = none := by decide
  exact absurd (hgraft.symm.trans (hkept.trans hfresh)) (Option.some_ne_none _)

end LineageA1000.Fuse
