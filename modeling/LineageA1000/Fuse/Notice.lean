import LineageA1000.Fuse.Place

/-!
# What the other views are told

When a name goes, the kernels of the other views may still hold it. `handle_unlink` and
`handle_rmdir` mark the node deleted and send each of them a notification. `handle_rename` gives its
child another name without a word, and leaves a node that it overwrites below under its old one.
-/

namespace LineageA1000.Fuse

variable {cfg : Config} {lost : NodeId → Nat} {refs : NodeId → Nat} {s s' : System} {e : Event}
  {g g' : Graph} {v w : View} {o : Outside} {p c n : NodeId} {node : Node} {name : Bytes}

/-- What a node is to its directory. -/
def Node.entry (node : Node) : Option NodeId × Bytes × Bool :=
  (node.parent, node.name, node.deleted)

/-- Some nodes may be gone; the others are to their directories what they were. -/
def KeepsEntries (g g' : Graph) : Prop := Heap.Thins Node.entry g g'

/-- As `KeepsEntries`, where there may be new nodes. -/
def SameEntries (g g' : Graph) : Prop :=
  ∀ m node node', g m = some node → g' m = some node' → node'.entry = node.entry

/-- No two nodes are in one directory under one name. -/
def Distinct (g : Graph) : Prop :=
  ∀ a b anode bnode, g a = some anode → g b = some bnode → anode.deleted = false →
    anode.parent ≠ none → bnode.entry = anode.entry → a = b

/-- The node that a directory has under a name. -/
def nodeOf (g : Graph) (p : NodeId) (name : Bytes) : Option NodeId :=
  (lookupChildByName p name g).join

theorem nodeOf_entry (h : Balanced g refs) (hnode : nodeOf g p name = some c) :
    ∃ node, g c = some node ∧ node.entry = (some p, name, false) := by
  cases hp : g p with
  | none =>
      rw [nodeOf, lookupChildByName, hp] at hnode
      cases hnode
  | some pnode =>
      obtain ⟨found, hfind, hfound⟩ := lookupChildByName_spec h hp name
      rw [nodeOf, hfind] at hnode
      obtain ⟨node, hc, hparent, hname, hdeleted⟩ := hfound c hnode
      refine ⟨node, hc, ?_⟩
      rw [Node.entry, hparent, hname, hdeleted]

theorem nodeOf_eq_some_iff (h : Balanced g refs) (hdistinct : Distinct g) :
    nodeOf g p name = some c ↔ ∃ node, g c = some node ∧ node.entry = (some p, name, false) := by
  refine ⟨nodeOf_entry h, ?_⟩
  intro ⟨node, hc, hentry⟩
  obtain ⟨hparent, hrest⟩ := Prod.mk.inj hentry
  obtain ⟨hname, hdeleted⟩ := Prod.mk.inj hrest
  obtain ⟨pnode, hp⟩ := h.parent_live hc hparent
  obtain ⟨found, hfind, hfound⟩ := lookupChildByName_spec h hp name
  rw [nodeOf, hfind]
  cases found with
  | none =>
      rw [lookupChildByName_none h hp hfind hc hparent hname] at hdeleted
      cases hdeleted
  | some c' =>
      obtain ⟨node', hc', hparent', hname', hdeleted'⟩ := hfound c' rfl
      refine congrArg some (hdistinct c' c node' node hc' hc hdeleted' ?_ ?_)
      · rw [hparent']
        exact Option.some_ne_none _
      · rw [hentry, Node.entry, hparent', hname', hdeleted']

/-! ### Names that stay -/

theorem rest_entry {a b : Node} (h : a.rest = b.rest) : a.entry = b.entry := by
  show a.rest.entry = b.rest.entry
  rw [h]

theorem Keeps.entries (h : Keeps g g') : KeepsEntries g g' := Heap.Thins.comp h Node.entry

theorem SameRest.entries (h : SameRest g g') : KeepsEntries g g' :=
  (Heap.Agree.comp h Node.entry).thins

theorem KeepsEntries.same (h : KeepsEntries g g') : SameEntries g g' :=
  fun _ _ _ hm hm' => h.eq hm hm'

/-- The walk that derives permissions writes nothing else. -/
theorem sameRest_derive {packages : AppIdMap} {kids : NodeId → List NodeId}
    (hlinked : Linked g [] kids)
    (hderive : derivePermissionsRecursive cfg packages n g = some g') : SameRest g g' := by
  have hnothing : Inherited (fun _ _ => False) cfg packages g := fun _ _ _ _ _ _ hexp => hexp.elim
  obtain ⟨hkept, -⟩ := deriveWithin_has hlinked hnothing (fun _ _ _ _ hexp => hexp.elim)
    (fun _ _ _ hexp => hexp.elim) hderive
  exact hkept.rest

theorem Distinct.keep (h : Distinct g) (hkeeps : KeepsEntries g g') : Distinct g' := by
  intro a b anode bnode ha hb hdeleted hparent hentry
  obtain ⟨anode₀, ha₀, hae⟩ := hkeeps a anode ha
  obtain ⟨bnode₀, hb₀, hbe⟩ := hkeeps b bnode hb
  refine h a b anode₀ bnode₀ ha₀ hb₀ ?_ ?_ (hbe.symm.trans (hentry.trans hae))
  · exact (congrArg (fun t => t.2.2) hae).symm.trans hdeleted
  · intro hnone
    exact hparent ((congrArg Prod.fst hae).trans hnone)

/-- The relink of a rename gives its child another directory or another name. -/
def Relocates (s : System) (e : Event) : Prop :=
  ∃ v o p newName newActualName c node, e = .run v o ∧
    s.threads v = .relink p newName newActualName c ∧ s.shared.nodes c = some node ∧
    (renameNode o.memory newName newActualName node).isSome ∧
    ¬(node.parent = some p ∧ node.name = newName)

theorem not_closesLoop (hstanding : Standing s) (h : ¬ Relocates s e) : ¬ ClosesLoop s e := by
  rintro ⟨c, p, ⟨v, o, newName, newActualName, rfl, hpc, hmemory⟩, habove⟩
  obtain ⟨lost, hinv⟩ := hstanding.inv
  obtain ⟨node, hnode⟩ := hinv.balanced.live
    (refs_pos_of_held (v := v) (n := c) (by rw [hpc]; rfl) : 0 < Fuse.refs s c + lost c)
  have hplace : node.parent = some p ∧ node.name = newName := by
    by_contra hmoved
    exact h ⟨v, o, p, newName, newActualName, c, node, rfl, hpc, hnode, hmemory node hnode, hmoved⟩
  exact hstanding.rooted.acyclic hstanding.root c p ((parentOf_eq hnode).trans hplace.1) habove

theorem renameNode_entry {memory : Bool} {actualName : Bytes} {renamed : Node}
    (hrename : renameNode memory name actualName node = some renamed) :
    (renamed.name, renamed.deleted) = (name, node.deleted) := by
  rw [renameNode] at hrename
  split at hrename
  · cases hrename
  · obtain rfl := Option.some.inj hrename
    rfl

/-- A rename that leaves its child where it is. -/
theorem Relinked.entries {s : Global} {newName newActualName : Bytes}
    (h : Relinked cfg o s p newName newActualName c g')
    (hplace : ∀ node, s.nodes c = some node → node.parent = some p ∧ node.name = newName) :
    KeepsEntries s.nodes g' := by
  obtain ⟨node, renamed, g₁, kids, dnode, node₁, g₃, node₃, hnode, hrename, hkeeps₁, hlinked₁,
    hdnode, hnode₁, hderive, hnode₃, hkeeps₃⟩ := h.steps
  have hlinked₂ := hlinked₁.sameShapes
    (SameShapes.set hnode₁ (derivePermissions_shape cfg s.packages dnode node₁))
  have hrest := sameRest_derive hlinked₂ hderive
  intro m node' hm
  by_cases hmc : m = c
  · subst hmc
    obtain ⟨hparent, hname⟩ := hplace node hnode
    have hentry₁ := congrArg Prod.snd (hkeeps₁.entries.eq_update hnode₁)
    have hentry₂ := congrArg Prod.snd
      (rest_entry (derivePermissions_rest cfg s.packages dnode node₁))
    have hentry₃ := congrArg Prod.snd (hrest.entries.eq_update hnode₃)
    refine ⟨node, hnode, ?_⟩
    rw [hkeeps₃.entries.eq_update hm]
    refine Prod.ext hparent.symm (hentry₃.trans (hentry₂.trans (hentry₁.trans ?_)))
    exact (renameNode_entry hrename).trans (congrArg (·, node.deleted) hname.symm)
  · obtain ⟨mnode₃, hm₃, hentry₃⟩ := hkeeps₃.entries.of_update hmc hm
    obtain ⟨mnode₁, hm₁, hentry₁⟩ := hrest.entries.of_update hmc hm₃
    obtain ⟨mnode, hmnode, hentry⟩ := hkeeps₁.entries.of_update hmc hm₁
    exact ⟨mnode, hmnode, hentry₃.trans (hentry₁.trans hentry)⟩

/-- A node may stand where no other does. -/
theorem Distinct.insert {cnode : Node} (h : Distinct g)
    (halone : ∀ m mnode, g m = some mnode → mnode.entry ≠ cnode.entry) :
    Distinct (g.set c cnode) := by
  intro a b anode bnode ha hb hdeleted hparent hsame
  by_cases hac : a = c
  · by_cases hbc : b = c
    · rw [hac, hbc]
    · subst hac
      rw [Graph.set_of_ne hbc] at hb
      rw [Graph.set_self] at ha
      rw [← Option.some.inj ha] at hsame
      exact absurd hsame (halone b bnode hb)
  · rw [Graph.set_of_ne hac] at ha
    by_cases hbc : b = c
    · subst hbc
      rw [Graph.set_self] at hb
      rw [← Option.some.inj hb] at hsame
      exact absurd hsame.symm (halone a anode ha)
    · rw [Graph.set_of_ne hbc] at hb
      exact h a b anode bnode ha hb hdeleted hparent hsame

/-- A new node takes a name that no child has. -/
theorem Created.entries {s : Global} (h : Created cfg s p name c g')
    (hbalanced : Balanced s.nodes refs)
    (hdistinct : Distinct s.nodes) (hmissing : lookupChildByName p name s.nodes = some none) :
    Distinct g' ∧ SameEntries s.nodes g' := by
  obtain ⟨pnode, actualName, hp, hkeeps⟩ := h.keeps
  obtain ⟨cnode, hcnode⟩ : ∃ cnode, cnode =
      { derivePermissions cfg s.packages pnode (newNode s name actualName) with
        parent := some p } := ⟨_, rfl⟩
  rw [← hcnode] at hkeeps
  have hentry : cnode.entry = (some p, name, false) := by
    rw [hcnode]
    have hrest := congrArg Prod.snd (rest_entry (derivePermissions_rest cfg s.packages pnode
      (newNode s name actualName)))
    exact Prod.ext rfl hrest
  -- no other node is where the new one is
  have halone : ∀ m mnode, s.nodes m = some mnode → mnode.entry ≠ cnode.entry := by
    intro m mnode hm hsame
    rw [hentry] at hsame
    obtain ⟨hparent, hsame⟩ := Prod.mk.inj hsame
    obtain ⟨hname, hdeleted⟩ := Prod.mk.inj hsame
    rw [lookupChildByName_none hbalanced hp hmissing hm hparent hname] at hdeleted
    cases hdeleted
  refine ⟨(hdistinct.insert halone).keep hkeeps.entries, fun m node node' hm hm' => ?_⟩
  have hmc : m ≠ c := by
    rintro rfl
    rw [h.fresh] at hm
    cases hm
  obtain ⟨old, hold, hentry⟩ := hkeeps.entries.of_update hmc hm'
  rw [hentry, Option.some.inj (hold.symm.trans hm)]

/-! ### What a step does to the names -/

/-- A node that is marked deleted gives up its name, and the others keep theirs. -/
theorem Distinct.mark (h : Distinct g) : Distinct (g.set c { node with deleted := true }) := by
  have hold : ∀ m mnode, (g.set c { node with deleted := true }) m = some mnode →
      mnode.deleted = false → g m = some mnode := by
    intro m mnode hm hdeleted
    by_cases hmc : m = c
    · subst hmc
      rw [Graph.set_self] at hm
      rw [← Option.some.inj hm] at hdeleted
      cases hdeleted
    · rwa [Graph.set_of_ne hmc] at hm
  intro a b anode bnode ha hb hdeleted hparent hentry
  have hdeleted' : bnode.deleted = false := (congrArg (fun t => t.2.2) hentry).trans hdeleted
  exact h a b anode bnode (hold a anode ha hdeleted) (hold b bnode hb hdeleted') hdeleted hparent
    hentry

/-- A step marks one node deleted, or every node that is left is to its directory what it was; a new
one is where there was none. -/
theorem effect_entries (hinv : Inv lost s) (hrelocates : ¬ Relocates s e)
    (hdistinct : Distinct s.shared.nodes) (heffect : Effect cfg s e s') :
    Distinct s'.shared.nodes ∧ (SameEntries s.shared.nodes s'.shared.nodes ∨
      ∃ v o p name c, e = .run v o ∧ s.threads v = .markDeleted p name ∧
        lookupChildByName p name s.shared.nodes = some (some c)) := by
  cases heffect with
  | stays hstays =>
      have hentries := hstays.1.entries
      exact ⟨hdistinct.keep hentries, Or.inl hentries.same⟩
  | creates v o p name actualName c hevent hpc hmissing hcreated hpackages =>
      obtain ⟨hdistinct', hsame⟩ := hcreated.entries hinv.balanced hdistinct hmissing
      exact ⟨hdistinct', Or.inl hsame⟩
  | marks v o p name c node hevent hpc hfound hnode hnodes hpackages =>
      refine ⟨?_, Or.inr ⟨v, o, p, name, c, hevent, hpc, hfound⟩⟩
      rw [hnodes]
      exact hdistinct.mark
  | relinks v o p newName newActualName c g hevent hpc hrelinked hkeeps hpackages =>
      have hplace : ∀ node, s.shared.nodes c = some node →
          node.parent = some p ∧ node.name = newName := by
        intro node hnode
        by_contra hmoved
        exact hrelocates ⟨v, o, p, newName, newActualName, c, node, hevent, hpc, hnode,
          hrelinked.renames hnode, hmoved⟩
      have hentries : KeepsEntries s.shared.nodes s'.shared.nodes :=
        (hrelinked.entries hplace).trans hkeeps.entries
      exact ⟨hdistinct.keep hentries, Or.inl hentries.same⟩
  | reloads packages hevent hderive hpackages =>
      obtain ⟨kids, hlinked⟩ := hinv.balanced.linked
      have hentries := (sameRest_derive hlinked hderive).entries
      exact ⟨hdistinct.keep hentries, Or.inl hentries.same⟩

/-! ### Removals and notifications -/

/-- The last critical section of an unlink, a rmdir or a rename. -/
def Pc.removes : Pc → Bool
  | .markDeleted _ _ => true
  | .relink _ _ _ _ => true
  | _ => false

/-- With this step, in which a view other than `w` ends an unlink, a rmdir or a rename, the
directory `p` no longer has the node `c`, which is still there, under the name. -/
def Removes (cfg : Config) (s : System) (w : View) (p c : NodeId) (name : Bytes) : Event → Prop
  | .run v o => v ≠ w ∧ (s.threads v).removes = true ∧ nodeOf s.shared.nodes p name = some c ∧
      ((step cfg s (.run v o)).shared.nodes c).isSome ∧
      nodeOf (step cfg s (.run v o)).shared.nodes p name ≠ some c
  | _ => False

instance (cfg : Config) (s : System) (w : View) (p c : NodeId) (name : Bytes) :
    ∀ e : Event, Decidable (Removes cfg s w p c name e)
  | .run _ _ => inferInstanceAs (Decidable (_ ∧ _))
  | .request _ _ | .forget _ _ _ | .reload _ => inferInstanceAs (Decidable False)

/-- How often in a run another view than `w` removes the name. -/
def removals (cfg : Config) (w : View) (p c : NodeId) (name : Bytes) : System → List Event → Nat
  | _, [] => 0
  | s, e :: es =>
      (if Removes cfg s w p c name e then 1 else 0) + removals cfg w p c name (step cfg s e) es

/-- The notifications of a removal that were sent to `w`. -/
def told (s : System) (w : View) (p c : NodeId) (name : Bytes) : Nat :=
  s.notified.count ⟨w, p, c, name⟩

/-- Whether a thread is about to send one to `w`. -/
def telling (pc : Pc) (v w : View) (p c : NodeId) (name : Bytes) : Nat :=
  if v ≠ w ∧ pc.notice = some (p, c, name) then 1 else 0

/-- Those that are about to be sent. -/
def pending (s : System) (w : View) (p c : NodeId) (name : Bytes) : Nat :=
  ∑ v, telling (s.threads v) v w p c name

/-- Of the four views all but the thread's own are sent one. -/
theorem told_notifyOthers (p₀ c₀ : NodeId) (name₀ : Bytes) (v : View) (s : System) (w : View)
    (p c : NodeId) (name : Bytes) : told (notifyOthers p₀ c₀ name₀ v s) w p c name =
      told s w p c name + telling (.notify p₀ c₀ name₀) v w p c name := by
  have hcount : (([View.default, .read, .write, .full].filter (· ≠ v)).map fun u =>
      (⟨u, p₀, c₀, name₀⟩ : Notification)).count ⟨w, p, c, name⟩ =
        telling (.notify p₀ c₀ name₀) v w p c name := by
    by_cases hsame : p₀ = p ∧ c₀ = c ∧ name₀ = name
    · obtain ⟨rfl, rfl, rfl⟩ := hsame
      have hinjective : Function.Injective fun u => (⟨u, p₀, c₀, name₀⟩ : Notification) :=
        fun u u' heq => congrArg Notification.view heq
      rw [List.count_map_of_injective _ _ hinjective w]
      simp only [telling, Pc.notice, and_true]
      cases v <;> cases w <;> rfl
    · have hother : ¬ some (p₀, c₀, name₀) = some (p, c, name) := by
        intro heq
        obtain ⟨hp, heq⟩ := Prod.mk.inj (Option.some.inj heq)
        exact hsame ⟨hp, Prod.mk.inj heq⟩
      rw [telling, Pc.notice, if_neg fun hboth => hother hboth.2, List.count_eq_zero]
      intro hmem
      obtain ⟨u, -, heq⟩ := List.mem_map.1 hmem
      obtain ⟨-, hp, hc, hname⟩ := Notification.mk.inj heq
      exact hsame ⟨hp, hc, hname⟩
  rw [told, told, notifyOthers, ← hcount]
  exact List.count_append ..

theorem pending_update {pc : Pc} (hthreads : s'.threads = Function.update s.threads v pc)
    (w : View) (p c : NodeId) (name : Bytes) :
    pending s' w p c name + telling (s.threads v) v w p c name =
      pending s w p c name + telling pc v w p c name := by
  have hsum := sum_update (fun u => telling (s.threads u) u w p c name)
    (fun u => telling (s'.threads u) u w p c name) v fun u hu => by
      rw [hthreads, Function.update_of_ne hu]
  have hself : telling (s'.threads v) v w p c name = telling pc v w p c name := by
    rw [hthreads, Function.update_self]
  rw [hself] at hsum
  exact hsum

/-- A step that keeps the entries removes no name. -/
theorem not_removes {lost' : NodeId → Nat} (hinv : Inv lost s) (hinv' : Inv lost' (step cfg s e))
    (hdistinct : Distinct s.shared.nodes) (hdistinct' : Distinct (step cfg s e).shared.nodes)
    (hsame : SameEntries s.shared.nodes (step cfg s e).shared.nodes) (w : View) (p c : NodeId)
    (name : Bytes) : ¬ Removes cfg s w p c name e := by
  cases e with
  | run v o =>
      rintro ⟨-, -, hnamed, hlive, hgone⟩
      obtain ⟨node, hnode, hentry⟩ := (nodeOf_eq_some_iff hinv.balanced hdistinct).1 hnamed
      obtain ⟨node', hnode'⟩ := Option.isSome_iff_exists.1 hlive
      refine hgone ((nodeOf_eq_some_iff hinv'.balanced hdistinct').2 ⟨node', hnode', ?_⟩)
      exact (hsame c node node' hnode hnode').trans hentry
  | request v req => exact fun h => h
  | forget v n k => exact fun h => h
  | reload packages => exact fun h => h

/-- The state of a run in which no rename gives its child another place. -/
structure Steady (s : System) : Prop where
  standing : Standing s
  distinct : Distinct s.shared.nodes

theorem Steady.step (h : Steady s) (hroom : Room s e) (hrelocates : ¬ Relocates s e) :
    Steady (Fuse.step cfg s e) := by
  obtain ⟨lost, hinv⟩ := h.standing.inv
  refine ⟨standing_step cfg h.standing hroom (not_closesLoop h.standing hrelocates), ?_⟩
  exact (effect_entries hinv hrelocates h.distinct (h.standing.effect cfg hroom)).1

theorem telling_of_none {pc : Pc} (h : pc.notice = none) (v w : View) (p c : NodeId)
    (name : Bytes) : telling pc v w p c name = 0 := by
  rw [telling, h]
  exact if_neg fun hboth => absurd hboth.2.symm (Option.some_ne_none _)

theorem telling_notify (p₀ c₀ : NodeId) (name₀ : Bytes) (v w : View) (p c : NodeId)
    (name : Bytes) : telling (.notify p₀ c₀ name₀) v w p c name =
      if v ≠ w ∧ p₀ = p ∧ c₀ = c ∧ name₀ = name then 1 else 0 := by
  simp only [telling, Pc.notice, Option.some.injEq, Prod.mk.injEq]

/-- A thread that has nothing to tell before and after a step. -/
theorem Silent.told (h : Silent v s s') (hquiet : (s.threads v).notice = none) (w : View)
    (p c : NodeId) (name : Bytes) :
    Fuse.told s' w p c name = Fuse.told s w p c name ∧
      pending s' w p c name = pending s w p c name := by
  obtain ⟨pc, hpc, hthreads⟩ := h.threads
  have hpending := pending_update hthreads w p c name
  rw [telling_of_none hpc, telling_of_none hquiet] at hpending
  refine ⟨?_, hpending⟩
  rw [Fuse.told, h.notified]
  rfl

/-- A step that keeps the entries tells what was about to be told. -/
theorem told_of_sameEntries (hinv : Inv lost s) (hperform : perform cfg s e = some s')
    (hsame : SameEntries s.shared.nodes s'.shared.nodes) (w : View) (p c : NodeId)
    (name : Bytes) : told s' w p c name + pending s' w p c name =
      told s w p c name + pending s w p c name := by
  cases e with
  | request v req =>
      rw [perform] at hperform
      split at hperform
      · rename_i hguard
        obtain ⟨res, hpc⟩ := Pc.eq_idle hguard.1
        have hquiet : (s.threads v).notice = none := by
          rw [hpc]
          rfl
        obtain ⟨htold, hpending⟩ := (Silent.setThread v s rfl :
          Silent v s (s.setThread v (.resolve req))).told hquiet w p c name
        rw [← Option.some.inj hperform, htold, hpending]
      · rw [← Option.some.inj hperform]
  | forget v nodeid nlookup =>
      rw [perform] at hperform
      split at hperform
      · obtain ⟨_, -, hperform⟩ := Option.bind_eq_some_iff.1 hperform
        rw [← Option.some.inj hperform]
        rfl
      · rw [← Option.some.inj hperform]
  | reload packages =>
      obtain ⟨_, -, hperform⟩ := Option.bind_eq_some_iff.1 hperform
      rw [← Option.some.inj hperform]
      rfl
  | run v o =>
      by_cases hquiet : (s.threads v).notice = none
      · obtain hsilent | ⟨p₀, name₀, c₀, node, hpc, hfound, hnode, rfl⟩ | ⟨p₀, c₀, name₀, hpc, -⟩ :=
          advance_cases hperform
        · obtain ⟨htold, hpending⟩ := hsilent.told hquiet w p c name
          rw [htold, hpending]
        · -- the node that is marked was not deleted
          obtain ⟨old, hold, hentry⟩ := nodeOf_entry hinv.balanced
            (by rw [nodeOf, hfound]; rfl : nodeOf s.shared.nodes p₀ name₀ = some c₀)
          have hkept := hsame c₀ node _ hnode (Graph.set_self ..)
          rw [Option.some.inj (hnode.symm.trans hold), hentry] at hkept
          cases congrArg (fun t => t.2.2) hkept
        · rw [hpc] at hquiet
          cases hquiet
      · cases hpc : s.threads v with
        | notify p₀ c₀ name₀ =>
            have hstep : notifyOthers p₀ c₀ name₀ v s = s' := by
              rw [perform, advance, hpc] at hperform
              exact Option.some.inj hperform
            have hthreads : s'.threads = Function.update s.threads v (.idle 0) := by
              rw [← hstep]
              rfl
            have hpending := pending_update hthreads w p c name
            rw [telling_of_none (rfl : (Pc.idle 0).notice = none), hpc] at hpending
            rw [← hstep, told_notifyOthers, hstep]
            omega
        | _ =>
            rw [hpc] at hquiet
            exact absurd rfl hquiet

/-- The step that marks a node deleted, and the thread about to tell. -/
theorem perform_marked (hnode : s.shared.nodes c = some node)
    (hperform : perform cfg s (.run v o) = some s') (hpc : s.threads v = .markDeleted p name)
    (hfound : lookupChildByName p name s.shared.nodes = some (some c)) :
    s' = (s.setNodes (s.shared.nodes.set c { node with deleted := true })).setThread v
      (.notify p c name) := by
  rw [perform, advance, hpc] at hperform
  simp only [markDeleted, hfound, hnode, Option.bind_eq_bind, Option.bind_some] at hperform
  exact (Option.some.inj hperform).symm

/-- The one name that the step removes. -/
theorem removes_marked_iff {lost' : NodeId → Nat} {p₀ c₀ : NodeId} {name₀ : Bytes}
    (hinv : Inv lost s) (hinv' : Inv lost' (step cfg s (.run v o)))
    (hdistinct' : Distinct (step cfg s (.run v o)).shared.nodes)
    (hpc : s.threads v = .markDeleted p₀ name₀)
    (hfound : nodeOf s.shared.nodes p₀ name₀ = some c₀)
    (hnodes : (step cfg s (.run v o)).shared.nodes =
      s.shared.nodes.set c₀ { node with deleted := true }) (w : View) :
    Removes cfg s w p c name (.run v o) ↔ v ≠ w ∧ p₀ = p ∧ c₀ = c ∧ name₀ = name := by
  obtain ⟨old, hold, hentry⟩ := nodeOf_entry hinv.balanced hfound
  constructor
  · rintro ⟨hview, -, hnamed, -, hgone⟩
    obtain ⟨cnode, hcnode, hcentry⟩ := nodeOf_entry hinv.balanced hnamed
    have hc : c₀ = c := by
      by_contra hne
      refine hgone ((nodeOf_eq_some_iff hinv'.balanced hdistinct').2 ⟨cnode, ?_, hcentry⟩)
      rw [hnodes, Graph.set_of_ne (Ne.symm hne)]
      exact hcnode
    subst hc
    rw [Option.some.inj (hold.symm.trans hcnode), hcentry] at hentry
    obtain ⟨hp, hrest⟩ := Prod.mk.inj hentry
    exact ⟨hview, (Option.some.inj hp).symm, rfl, (Prod.mk.inj hrest).1.symm⟩
  · rintro ⟨hview, rfl, rfl, rfl⟩
    refine ⟨hview, ?_, hfound, ?_, fun hstill => ?_⟩
    · rw [hpc]
      rfl
    · rw [hnodes, Graph.set_self]
      rfl
    · obtain ⟨marked, hmarked, hmentry⟩ := nodeOf_entry hinv'.balanced hstill
      rw [hnodes, Graph.set_self] at hmarked
      rw [← Option.some.inj hmarked] at hmentry
      cases congrArg (fun t => t.2.2) hmentry

/-- The step that marks a node deleted removes its name, and the thread is about to tell. -/
theorem told_of_marked {lost' : NodeId → Nat} {p₀ c₀ : NodeId} {name₀ : Bytes} (hinv : Inv lost s)
    (hinv' : Inv lost' (step cfg s (.run v o)))
    (hdistinct' : Distinct (step cfg s (.run v o)).shared.nodes)
    (hperform : perform cfg s (.run v o) = some (step cfg s (.run v o)))
    (hpc : s.threads v = .markDeleted p₀ name₀)
    (hfound : lookupChildByName p₀ name₀ s.shared.nodes = some (some c₀)) (w : View)
    (p c : NodeId) (name : Bytes) :
    told (step cfg s (.run v o)) w p c name + pending (step cfg s (.run v o)) w p c name =
      told s w p c name + pending s w p c name +
        if Removes cfg s w p c name (.run v o) then 1 else 0 := by
  have hnamed : nodeOf s.shared.nodes p₀ name₀ = some c₀ := by
    rw [nodeOf, hfound]
    rfl
  obtain ⟨node, hnode, -⟩ := nodeOf_entry hinv.balanced hnamed
  have hstep := perform_marked hnode hperform hpc hfound
  have hnodes : (step cfg s (.run v o)).shared.nodes =
      s.shared.nodes.set c₀ { node with deleted := true } := by
    rw [hstep]
    rfl
  have htold : told (step cfg s (.run v o)) w p c name = told s w p c name := by
    rw [hstep]
    rfl
  have hthreads : (step cfg s (.run v o)).threads =
      Function.update s.threads v (.notify p₀ c₀ name₀) := by
    rw [hstep]
    rfl
  have hpending := pending_update hthreads w p c name
  rw [hpc, telling_of_none rfl, telling_notify] at hpending
  simp only [removes_marked_iff hinv hinv' hdistinct' hpc hnamed hnodes w]
  rw [htold]
  omega

/-- One step: what is told or is about to be told grows by what it removes. -/
theorem told_step (h : Steady s) (hroom : Room s e) (hrelocates : ¬ Relocates s e) (w : View)
    (p c : NodeId) (name : Bytes) :
    told (step cfg s e) w p c name + pending (step cfg s e) w p c name =
      told s w p c name + pending s w p c name + if Removes cfg s w p c name e then 1 else 0 := by
  obtain ⟨lost, hinv⟩ := h.standing.inv
  have hnext : Steady (step cfg s e) := h.step hroom hrelocates
  obtain ⟨lost', hinv'⟩ := hnext.standing.inv
  have hperform := h.standing.perform cfg hroom
  obtain ⟨-, hsame | ⟨v, o, p₀, name₀, c₀, rfl, hpc, hfound⟩⟩ :=
    effect_entries hinv hrelocates h.distinct (h.standing.effect cfg hroom)
  · rw [if_neg (not_removes hinv hinv' h.distinct hnext.distinct hsame w p c name)]
    exact told_of_sameEntries hinv hperform hsame w p c name
  · exact told_of_marked hinv hinv' hnext.distinct hperform hpc hfound w p c name

/-! ### Runs -/

/-- No child list of a directory holds two nodes of one name that are not deleted. -/
def NoTwins (g : Graph) : Prop :=
  ∀ p pnode siblings, g p = some pnode → Chain g Node.next pnode.child siblings →
    ∀ a ∈ siblings, ∀ b ∈ siblings, ∀ anode bnode, g a = some anode → g b = some bnode →
      anode.deleted = false → bnode.deleted = false → anode.name = bnode.name → a = b

theorem Distinct.noTwins (h : Distinct g) (hbalanced : Balanced g refs) : NoTwins g := by
  obtain ⟨kids, hlinked⟩ := hbalanced.linked
  intro p pnode siblings hp hchain a ha b hb anode bnode hanode hbnode hadeleted hbdeleted hname
  have hchild : ∀ m ∈ siblings, ∀ mnode, g m = some mnode → mnode.parent = some p := by
    intro m hm mnode hmnode
    rw [hchain.unique (hlinked.chain p pnode hp)] at hm
    obtain ⟨-, node, hnode, hparent⟩ := (hlinked.mem p m).1 hm
    rw [Option.some.inj (hmnode.symm.trans hnode)]
    exact hparent
  have haparent := hchild a ha anode hanode
  refine h a b anode bnode hanode hbnode hadeleted ?_ ?_
  · rw [haparent]
    exact Option.some_ne_none _
  · rw [Node.entry, Node.entry, haparent, hchild b hb bnode hbnode, hname, hadeleted, hbdeleted]

theorem steady_start (cfg : Config) (multiUser : Bool) (userid : Nat) (disk : Disk) :
    Steady (start cfg multiUser userid disk) := by
  refine ⟨standing_start cfg multiUser userid disk, fun a b anode bnode ha hb _ _ _ => ?_⟩
  rw [(start_nodes_some ha).1, (start_nodes_some hb).1]

/-- A run: what is told or is about to be told grows by what it removes. -/
theorem told_run {events : List Event} (h : Steady s)
    (hevents : Run.EachStep (step cfg) (fun s e => Room s e ∧ ¬ Relocates s e) s events)
    (w : View) (p c : NodeId) (name : Bytes) :
    told (Run.final (step cfg) s events) w p c name +
        pending (Run.final (step cfg) s events) w p c name =
      told s w p c name + pending s w p c name + removals cfg w p c name s events := by
  induction events generalizing s with
  | nil => rfl
  | cons e events ih =>
      obtain ⟨⟨hroom, hrelocates⟩, hevents⟩ := hevents
      rw [Run.final_cons, ih (h.step hroom hrelocates) hevents,
        told_step h hroom hrelocates w p c name, removals, Nat.add_assoc]

theorem Quiet.pending (h : Quiet s) (w : View) (p c : NodeId) (name : Bytes) :
    Fuse.pending s w p c name = 0 := by
  refine Finset.sum_eq_zero fun v _ => telling_of_none ?_ v w p c name
  obtain ⟨res, hpc⟩ := Pc.eq_idle (h v)
  rw [hpc]
  rfl

/-- The relink of a rename that leaves its child where it is. -/
def Pc.inPlace (g : Graph) : Pc → Bool
  | .relink newdir newName _ child =>
      (g child).all fun node => node.parent = some newdir ∧ node.name = newName
  | _ => true

def InPlaceStep (s : System) : Event → Prop
  | .run v _ => (s.threads v).inPlace s.shared.nodes = true
  | _ => True

instance (s : System) : ∀ e : Event, Decidable (InPlaceStep s e)
  | .run _ _ => inferInstanceAs (Decidable (_ = _))
  | .request _ _ | .forget _ _ _ | .reload _ => inferInstanceAs (Decidable True)

theorem not_relocates_of_inPlaceStep (h : InPlaceStep s e) : ¬ Relocates s e := by
  rintro ⟨v, o, p, newName, newActualName, c, node, rfl, hpc, hnode, -, hmoved⟩
  rw [InPlaceStep, hpc, Pc.inPlace, hnode, Option.all_some, decide_eq_true_eq] at h
  exact hmoved h

/-- A card with the files `/a/x` and `/b/x`. -/
def twinCard : Disk where
  entries := [([0x73], .dir), ([0x73, 0x2F, 0x61], .dir), ([0x73, 0x2F, 0x61, 0x2F, 0x78], .file),
    ([0x73, 0x2F, 0x62], .dir), ([0x73, 0x2F, 0x62, 0x2F, 0x78], .file)]

/-- A view looks up both files. -/
def lookupBoth (v : View) : List Event :=
  lookupEvents v 1 [0x61] 2 ++ lookupEvents v 2 [0x78] 3 ++ lookupEvents v 1 [0x62] 4 ++
    lookupEvents v 4 [0x78] 5

/-- Two views look up both files, and one of them removes `/a/x`. -/
def unlinkRun : List Event :=
  lookupBoth .default ++ lookupBoth .read ++ [.request .default (.rename 4 [0x78] 4 [0x78])] ++
    List.replicate 5 (.run .default (smooth none)) ++
    [.request .default (.remove .unlink 2 [0x78])] ++
    List.replicate 5 (.run .default (smooth none))

/-- Two views look up both files, and one of them renames `/a/x` to `/b/x`. -/
def overwriteRun : List Event :=
  lookupBoth .default ++ lookupBoth .read ++ [.request .default (.rename 2 [0x78] 4 [0x78])] ++
    List.replicate 5 (.run .default (smooth none))

end LineageA1000.Fuse
