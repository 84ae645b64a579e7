import LineageA1000.Fuse.Serve
import Mathlib.Algebra.Order.BigOperators.Group.Finset

/-!
# Reference counts across the views

A node's references are the entries of it that reached some kernel and were not forgotten, its
children, two for the root, and, while requests are being served, the one that a rename takes on the
child it found and that an entry takes before it is written. The daemon keeps each count at that
number until a reply is lost: `fuse_reply` logs the failure, and nobody gives the reference back.
-/

namespace LineageA1000.Fuse

/-! ### References -/

def Task.held : Task → Option NodeId
  | .rename _ _ _ _ child _ => some child
  | _ => none

/-- The node a thread holds a reference on. -/
def Pc.held : Pc → Option NodeId
  | .access task _ => task.held
  | .search task _ => task.held
  | .call task _ _ => task.held
  | .writeEntry node => some node
  | .relink _ _ _ child => some child
  | .ioError child _ => some child
  | _ => none

def Task.names : Task → List NodeId
  | .entry _ nodeid _ => [nodeid]
  | .remove _ nodeid _ => [nodeid]
  | .rename nodeid _ newdir _ _ _ => [nodeid, newdir]

/-- The nodes a thread was told of by its kernel and still needs. -/
def Pc.names : Pc → List NodeId
  | .resolve req => req.nodes
  | .access task _ => task.names
  | .search task _ => task.names
  | .call task _ _ => task.names
  | .nomedia nodeid _ _ _ _ => [nodeid]
  | .lstat nodeid _ _ _ => [nodeid]
  | .replyEntry nodeid _ _ => [nodeid]
  | .markDeleted nodeid _ => [nodeid]
  | .relink newdir _ _ _ => [newdir]
  | _ => []

def holds (pc : Pc) (n : NodeId) : Nat := if pc.held = some n then 1 else 0

def rootRefs (n : NodeId) : Nat := if n = rootId then 2 else 0

/-- The entry replies for a node that reached some view's kernel and have not been forgotten. -/
def entries (s : System) (n : NodeId) : Nat := ∑ v, s.delivered v n

/-- The references the threads hold while they serve a request. -/
def inService (s : System) (n : NodeId) : Nat := ∑ v, holds (s.threads v) n

/-- All references on a node but those of its children. -/
def refs (s : System) (n : NodeId) : Nat := rootRefs n + entries s n + inService s n

theorem sum_update (f f' : View → Nat) (v : View) (h : ∀ w, w ≠ v → f' w = f w) :
    ∑ w, f' w + f v = ∑ w, f w + f' v := by
  have hrest : ∑ w ∈ Finset.univ.erase v, f' w = ∑ w ∈ Finset.univ.erase v, f w :=
    Finset.sum_congr rfl fun w hw => h w (Finset.ne_of_mem_erase hw)
  have hall' := Finset.add_sum_erase _ f' (Finset.mem_univ v)
  have hall := Finset.add_sum_erase _ f (Finset.mem_univ v)
  omega

theorem le_sum (f : View → Nat) (v : View) : f v ≤ ∑ w, f w :=
  Finset.single_le_sum (fun _ _ => Nat.zero_le _) (Finset.mem_univ v)

/-- The state of a run: the graph is balanced over the references and the replies that were lost,
and a thread names only what its kernel may name. -/
structure Inv (lost : NodeId → Nat) (s : System) : Prop where
  balanced : Balanced s.shared.nodes fun n => refs s n + lost n
  named : ∀ v, ∀ n ∈ (s.threads v).names, Names s v n

variable {cfg : Config} {lost : NodeId → Nat} {s s' : System} {v : View} {o : Outside} {n : NodeId}

theorem Names.refs_pos (h : Names s v n) : 0 < refs s n + lost n := by
  rw [refs]
  rcases h with rfl | h
  · rw [rootRefs, if_pos rfl]
    omega
  · have hle := le_sum (fun w => s.delivered w n) v
    rw [entries]
    omega

theorem refs_pos_of_held (h : (s.threads v).held = some n) : 0 < refs s n + lost n := by
  have hle := le_sum (fun w => holds (s.threads w) n) v
  have hone : holds (s.threads v) n = 1 := if_pos h
  rw [refs, inService]
  omega

/-- A thread moves on, and holds what it held or another reference than before. -/
theorem refs_next {pc : Pc} (hthreads : s'.threads = Function.update s.threads v pc)
    (hdelivered : s'.delivered = s.delivered) (n : NodeId) :
    refs s' n + holds (s.threads v) n = refs s n + holds pc n := by
  have hsum := sum_update (fun w => holds (s.threads w) n) (fun w => holds (s'.threads w) n) v
    fun w hw => by rw [hthreads, Function.update_of_ne hw]
  have hself : holds (s'.threads v) n = holds pc n := by rw [hthreads, Function.update_self]
  rw [hself] at hsum
  rw [refs, refs, entries, entries, inService, inService, hdelivered]
  omega

theorem Inv.next (h : Inv lost s) {pc : Pc} (hthreads : s'.threads = Function.update s.threads v pc)
    (hdelivered : s'.delivered = s.delivered) (hnames : ∀ n ∈ pc.names, Names s v n)
    (hbalanced : Balanced s'.shared.nodes fun n =>
      refs s n + lost n + holds pc n - holds (s.threads v) n) : Inv lost s' := by
  refine ⟨?_, fun w m hm => ?_⟩
  · have hrefs : (fun n => refs s' n + lost n) = fun n =>
        refs s n + lost n + holds pc n - holds (s.threads v) n := by
      funext n
      have := refs_next (n := n) hthreads hdelivered
      omega
    rw [hrefs]
    exact hbalanced
  · rw [Names, hdelivered]
    by_cases hw : w = v
    · subst hw
      rw [hthreads, Function.update_self] at hm
      exact hnames m hm
    · rw [hthreads, Function.update_of_ne hw] at hm
      exact h.named w m hm

/-- A thread moves on and neither the graph nor what it holds changes. -/
theorem Inv.quiet (h : Inv lost s) {pc : Pc}
    (hthreads : s'.threads = Function.update s.threads v pc)
    (hdelivered : s'.delivered = s.delivered) (hnames : ∀ n ∈ pc.names, Names s v n)
    (hshapes : SameShapes s.shared.nodes s'.shared.nodes) (hheld : pc.held = (s.threads v).held) :
    Inv lost s' := by
  apply h.next hthreads hdelivered hnames
  have hrefs : (fun n => refs s n + lost n + holds pc n - holds (s.threads v) n) = fun n =>
      refs s n + lost n := by
    funext n
    rw [holds, holds, hheld, Nat.add_sub_cancel]
  rw [hrefs]
  exact h.balanced.congr hshapes

/-- A thread that held nothing takes a reference. -/
theorem Inv.take (h : Inv lost s) {pc : Pc} {c : NodeId}
    (hthreads : s'.threads = Function.update s.threads v pc)
    (hdelivered : s'.delivered = s.delivered) (hnames : ∀ n ∈ pc.names, Names s v n)
    (hbalanced : Balanced s'.shared.nodes (Function.update (fun n => refs s n + lost n) c
      (refs s c + lost c + 1))) (hold : (s.threads v).held = none) (hheld : pc.held = some c) :
    Inv lost s' := by
  apply h.next hthreads hdelivered hnames
  have hrefs : (fun n => refs s n + lost n + holds pc n - holds (s.threads v) n) =
      Function.update (fun n => refs s n + lost n) c (refs s c + lost c + 1) := by
    funext n
    rw [holds, holds, hheld, hold, if_neg (Option.some_ne_none n).symm, Nat.sub_zero]
    by_cases hnc : n = c
    · subst hnc
      rw [Function.update_self, if_pos rfl]
    · rw [Function.update_of_ne hnc, if_neg fun heq => hnc (Option.some.inj heq).symm, Nat.add_zero]
  rw [hrefs]
  exact hbalanced

/-- A thread gives back the reference it held. -/
theorem Inv.give (h : Inv lost s) {pc : Pc} {c : NodeId}
    (hthreads : s'.threads = Function.update s.threads v pc)
    (hdelivered : s'.delivered = s.delivered) (hnames : ∀ n ∈ pc.names, Names s v n)
    (hbalanced : Balanced s'.shared.nodes (Function.update (fun n => refs s n + lost n) c
      (refs s c + lost c - 1))) (hold : (s.threads v).held = some c) (hheld : pc.held = none) :
    Inv lost s' := by
  apply h.next hthreads hdelivered hnames
  have hrefs : (fun n => refs s n + lost n + holds pc n - holds (s.threads v) n) =
      Function.update (fun n => refs s n + lost n) c (refs s c + lost c - 1) := by
    funext n
    rw [holds, holds, hheld, hold, if_neg (Option.some_ne_none n).symm, Nat.add_zero]
    by_cases hnc : n = c
    · subst hnc
      rw [Function.update_self, if_pos rfl]
    · rw [Function.update_of_ne hnc, if_neg fun heq => hnc (Option.some.inj heq).symm, Nat.sub_zero]
  rw [hrefs]
  exact hbalanced

/-! ### What a step may do -/

/-- The acquire that the first critical section of a rename takes has room. -/
def FoundRoom (g : Graph) (p : NodeId) (name : Bytes) : Prop :=
  ∀ c ∈ (lookupChildByName p name g).join, HasRoom g c

instance (g : Graph) (p : NodeId) (name : Bytes) : Decidable (FoundRoom g p name) :=
  Option.decidableForallMem _

/-- No count that the thread raises next stands at the last value of its 32 bits. -/
def Pc.Room (g : Graph) (o : Outside) : Pc → Prop
  | .resolve (.rename nodeid oldName _ _) => FoundRoom g nodeid oldName
  | .replyEntry nodeid name _ => EntryRoom g nodeid name
  | .relink newdir newName newActualName child => RelinkRoom o newdir newName newActualName child g
  | _ => True

instance (g : Graph) (o : Outside) : ∀ pc : Pc, Decidable (pc.Room g o)
  | .resolve (.rename _ _ _ _) => inferInstanceAs (Decidable (FoundRoom ..))
  | .replyEntry _ _ _ => inferInstanceAs (Decidable (EntryRoom ..))
  | .relink _ _ _ _ => inferInstanceAs (Decidable (RelinkRoom ..))
  | .resolve (.entry _ _ _) | .resolve (.remove _ _ _) | .idle _ | .access _ _ | .search _ _
  | .call _ _ _ | .nomedia _ _ _ _ _ | .lstat _ _ _ _ | .writeEntry _ | .markDeleted _ _
  | .notify _ _ _ | .ioError _ _ => inferInstanceAs (Decidable True)

def Room (s : System) : Event → Prop
  | .run v o => (s.threads v).Room s.shared.nodes o
  | _ => True

/-- An entry that is written reaches the kernel. -/
def Pc.Delivers (o : Outside) : Pc → Prop
  | .writeEntry _ => o.written = true
  | _ => True

instance (o : Outside) : ∀ pc : Pc, Decidable (pc.Delivers o)
  | .writeEntry _ => inferInstanceAs (Decidable (_ = _))
  | .idle _ | .resolve _ | .access _ _ | .search _ _ | .call _ _ _ | .nomedia _ _ _ _ _
  | .lstat _ _ _ _ | .replyEntry _ _ _ | .markDeleted _ _ | .notify _ _ _ | .relink _ _ _ _
  | .ioError _ _ => inferInstanceAs (Decidable True)

def Delivers (s : System) : Event → Prop
  | .run v o => (s.threads v).Delivers o
  | _ => True

instance (s : System) : ∀ e : Event, Decidable (Delivers s e)
  | .run v o => inferInstanceAs (Decidable ((s.threads v).Delivers o))
  | .request _ _ | .forget _ _ _ | .reload _ => inferInstanceAs (Decidable True)

instance (s : System) : ∀ e : Event, Decidable (Room s e)
  | .run v o => inferInstanceAs (Decidable ((s.threads v).Room s.shared.nodes o))
  | .request _ _ | .forget _ _ _ | .reload _ => inferInstanceAs (Decidable True)

/-- The step is the relink of a rename that moves `c` below `p`. -/
def Relinks (s : System) (e : Event) (c p : NodeId) : Prop :=
  ∃ v o newName newActualName, e = .run v o ∧ s.threads v = .relink p newName newActualName c ∧
    ∀ node, s.shared.nodes c = some node → (renameNode o.memory newName newActualName node).isSome

/-- Nodes may be gone; the others and the package map stayed as they were. -/
def Stays (s s' : System) : Prop :=
  Keeps s.shared.nodes s'.shared.nodes ∧ s'.shared.packages = s.shared.packages

theorem Stays.of_shared (h : s'.shared = s.shared) : Stays s s' := by
  rw [Stays, h]
  exact ⟨Keeps.refl _, rfl⟩

/-- What a step does to the nodes, counts and lists aside. -/
inductive Effect (cfg : Config) (s : System) (e : Event) (s' : System) : Prop where
  | stays (hstays : Stays s s')
  | creates (v : View) (o : Outside) (p : NodeId) (name actualName : Bytes) (c : NodeId)
      (hevent : e = .run v o) (hpc : s.threads v = .replyEntry p name actualName)
      (hmissing : lookupChildByName p name s.shared.nodes = some none)
      (hcreated : Created cfg s.shared p name c s'.shared.nodes)
      (hpackages : s'.shared.packages = s.shared.packages)
  | marks (v : View) (o : Outside) (p : NodeId) (name : Bytes) (c : NodeId) (node : Node)
      (hevent : e = .run v o) (hpc : s.threads v = .markDeleted p name)
      (hfound : lookupChildByName p name s.shared.nodes = some (some c))
      (hnode : s.shared.nodes c = some node)
      (hnodes : s'.shared.nodes = s.shared.nodes.set c { node with deleted := true })
      (hpackages : s'.shared.packages = s.shared.packages)
  | relinks (v : View) (o : Outside) (p : NodeId) (newName newActualName : Bytes) (c : NodeId)
      (g : Graph) (hevent : e = .run v o)
      (hpc : s.threads v = .relink p newName newActualName c)
      (hrelinked : Relinked cfg o s.shared p newName newActualName c g)
      (hkeeps : Keeps g s'.shared.nodes) (hpackages : s'.shared.packages = s.shared.packages)
  | reloads (packages : AppIdMap) (hevent : e = .reload packages)
      (hderive : derivePermissionsRecursive cfg packages rootId s.shared.nodes =
        some s'.shared.nodes) (hpackages : s'.shared.packages = packages)

/-- What a step does to the parents: nodes may go, and one node, a new one or the child of a rename,
may come below a node that was there. -/
def Change (s : System) (e : Event) (s' : System) : Prop :=
  Prunes s.shared.nodes s'.shared.nodes ∨
    ∃ c p, Moves s.shared.nodes s'.shared.nodes c p ∧
      (s.shared.nodes c = none ∧ s.shared.nodes p ≠ none ∨ Relinks s e c p)

theorem Effect.change {e : Event} (h : Effect cfg s e s') : Change s e s' := by
  cases h with
  | stays hstays => exact Or.inl hstays.1.prunes
  | creates v o p name actualName c hevent hpc hmissing hcreated hpackages =>
      obtain ⟨pnode, _, hp, -⟩ := hcreated.keeps
      refine Or.inr ⟨c, p, hcreated.moves, Or.inl ⟨hcreated.fresh, ?_⟩⟩
      rw [hp]
      exact Option.some_ne_none _
  | marks v o p name c node hevent hpc hfound hnode hnodes hpackages =>
      have hshapes : SameShapes s.shared.nodes
          (s.shared.nodes.set c { node with deleted := true }) := SameShapes.set hnode rfl
      rw [← hnodes] at hshapes
      exact Or.inl hshapes.prunes
  | relinks v o p newName newActualName c g hevent hpc hrelinked hkeeps hpackages =>
      exact Or.inr ⟨c, p, hrelinked.moves.prunes hkeeps.prunes, Or.inr ⟨v, o, newName,
        newActualName, hevent, hpc, fun _ hnode => hrelinked.renames hnode⟩⟩
  | reloads packages hevent hderive hpackages =>
      exact Or.inl (sameShapes_deriveWithin _ _ _ _ hderive).prunes

theorem Inv.live (h : Inv lost s) (hn : Names s v n) : ∃ node, s.shared.nodes n = some node :=
  h.balanced.live hn.refs_pos

/-! ### A reply that is written -/

theorem threads_fuseReply (o : Outside) (node : NodeId) (v : View) (s : System) :
    (fuseReply o node v s).threads = Function.update s.threads v (.idle NO_STATUS) := rfl

theorem delivered_fuseReply (o : Outside) (node : NodeId) (v : View) (s : System) (w : View)
    (n : NodeId) : (fuseReply o node v s).delivered w n =
      s.delivered w n + if o.written = true ∧ w = v ∧ n = node then 1 else 0 := by
  have hdelivered : (fuseReply o node v s).delivered = if o.written then
      Function.update s.delivered v (Function.update (s.delivered v) node (s.delivered v node + 1))
    else s.delivered := rfl
  rw [hdelivered]
  by_cases hwritten : o.written = true
  · rw [if_pos hwritten]
    by_cases hw : w = v
    · subst hw
      rw [Function.update_self]
      by_cases hn : n = node
      · subst hn
        rw [Function.update_self, if_pos ⟨hwritten, rfl, rfl⟩]
      · rw [Function.update_of_ne hn, if_neg fun hall => hn hall.2.2, Nat.add_zero]
    · rw [Function.update_of_ne hw, if_neg fun hall => hw hall.2.1, Nat.add_zero]
  · rw [if_neg hwritten, if_neg fun hall => hwritten hall.1, Nat.add_zero]

theorem entries_fuseReply (o : Outside) (node : NodeId) (v : View) (s : System) (n : NodeId) :
    entries (fuseReply o node v s) n =
      entries s n + if o.written = true ∧ n = node then 1 else 0 := by
  have hsum := sum_update (fun w => s.delivered w n)
    (fun w => (fuseReply o node v s).delivered w n) v fun w hw => by
      rw [delivered_fuseReply, if_neg fun hall => hw hall.2.1, Nat.add_zero]
  have hself := delivered_fuseReply o node v s v n
  simp only [true_and] at hself
  rw [entries, entries]
  omega

/-- The thread gives up its reference. -/
theorem inService_fuseReply (o : Outside) {node : NodeId} (hpc : s.threads v = .writeEntry node)
    (n : NodeId) : inService (fuseReply o node v s) n + (if n = node then 1 else 0) =
      inService s n := by
  have hone : holds (s.threads v) n = if n = node then 1 else 0 := by
    rw [hpc, holds, Pc.held]
    by_cases hn : n = node
    · rw [if_pos hn, if_pos (congrArg some hn.symm)]
    · rw [if_neg hn, if_neg fun heq => hn (Option.some.inj heq).symm]
  have hsum := sum_update (fun w => holds (s.threads w) n)
    (fun w => holds ((fuseReply o node v s).threads w) n) v fun w hw => by
      rw [threads_fuseReply, Function.update_of_ne hw]
  have hidle : holds ((fuseReply o node v s).threads v) n = 0 := by
    rw [threads_fuseReply, Function.update_self]
    rfl
  rw [hidle, hone] at hsum
  exact hsum

/-! ### The pieces of the handlers -/

section Pieces

variable (h : Inv lost s)
include h

theorem inv_resolve {req : Request} (hpc : s.threads v = .resolve req)
    (hroom : Room s (.run v o)) (hstep : resolve req v s = some s') :
    Inv lost s' ∧ Stays s s' := by
  have hnames := h.named v
  rw [hpc] at hnames
  have hheld : (s.threads v).held = none := by rw [hpc]; rfl
  -- a thread that goes on without touching the graph
  have hquiet : ∀ pc, (∀ n ∈ pc.names, Names s v n) → pc.held = none →
      Inv lost (s.setThread v pc) ∧ Stays s (s.setThread v pc) :=
    fun pc hpcNames hpcHeld => ⟨h.quiet rfl rfl hpcNames (SameShapes.refl _)
      (hpcHeld.trans hheld.symm), Stays.of_shared rfl⟩
  have hidle : ∀ res, ∀ n ∈ (Pc.idle res).names, Names s v n := fun _ n hn => by cases hn
  cases req with
  | entry op nodeid name =>
      obtain ⟨_, -, hstep⟩ := Option.bind_eq_some_iff.1 hstep
      split at hstep
      · obtain rfl := Option.some.inj hstep
        exact hquiet _ (hidle _) rfl
      · obtain rfl := Option.some.inj hstep
        exact hquiet _ hnames rfl
  | remove op nodeid name =>
      obtain ⟨_, -, hstep⟩ := Option.bind_eq_some_iff.1 hstep
      split at hstep
      · obtain rfl := Option.some.inj hstep
        exact hquiet _ (hidle _) rfl
      · obtain rfl := Option.some.inj hstep
        exact hquiet _ hnames rfl
  | rename nodeid oldName newdir newName =>
      rw [Room, hpc, Pc.Room, FoundRoom] at hroom
      obtain ⟨oldParent, hold, hstep⟩ := Option.bind_eq_some_iff.1 hstep
      obtain ⟨newParent, -, hstep⟩ := Option.bind_eq_some_iff.1 hstep
      split at hstep
      · split at hstep
        · obtain rfl := Option.some.inj hstep
          exact hquiet _ (hidle _) rfl
        · obtain ⟨found, hfind, hstep⟩ := Option.bind_eq_some_iff.1 hstep
          split at hstep
          · obtain rfl := Option.some.inj hstep
            exact hquiet _ (hidle _) rfl
          · rename_i child oldChildPath hchild
            obtain ⟨g', hacquire, hstep⟩ := Option.bind_eq_some_iff.1 hstep
            obtain rfl := Option.some.inj hstep
            obtain ⟨c, rfl, hpath⟩ := Option.bind_eq_some_iff.1 hchild
            obtain ⟨path, -, hpair⟩ := Option.map_eq_some_iff.1 hpath
            obtain rfl : c = child := congrArg Prod.fst hpair
            obtain ⟨found', hfind', hfound⟩ := lookupChildByName_spec h.balanced hold oldName
            obtain rfl := Option.some.inj (hfind.symm.trans hfind')
            obtain ⟨cnode, hcnode, -⟩ := hfound c rfl
            obtain ⟨g₂, hacquire₂, hbalanced, hkeeps⟩ :=
              acquireNode_spec h.balanced hcnode (hroom c (by rw [hfind]; rfl))
            obtain rfl : g' = g₂ := Option.some.inj (hacquire.symm.trans hacquire₂)
            refine ⟨h.take rfl rfl hnames hbalanced hheld rfl, hkeeps, rfl⟩
      · obtain rfl := Option.some.inj hstep
        exact hquiet _ (hidle _) rfl

omit h in
theorem Task.fail_held (task : Task) (err : Int) : (task.fail err).held = task.held := by
  cases task <;> rfl

omit h in
theorem Task.fail_names (task : Task) (err : Int) : (task.fail err).names = [] := by
  cases task <;> rfl

theorem inv_findFileWithin {task : Task} {parentPath : Bytes}
    (hpc : s.threads v = .access task parentPath) :
    Inv lost (findFileWithin task parentPath v s) ∧
      (findFileWithin task parentPath v s).shared = s.shared := by
  have hnames := h.named v
  rw [hpc] at hnames
  have hheld : task.held = (s.threads v).held := by rw [hpc]; rfl
  rw [findFileWithin]
  split
  · refine ⟨h.quiet rfl rfl (fun n hn => ?_) (SameShapes.refl _)
      ((task.fail_held _).trans hheld), rfl⟩
    rw [task.fail_names] at hn
    cases hn
  split
  · exact ⟨h.quiet rfl rfl hnames (SameShapes.refl _) hheld, rfl⟩
  · exact ⟨h.quiet rfl rfl hnames (SameShapes.refl _) hheld, rfl⟩

theorem inv_searchDirectory {task : Task} {parentPath : Bytes}
    (hpc : s.threads v = .search task parentPath) :
    Inv lost (searchDirectory task parentPath v s) ∧
      (searchDirectory task parentPath v s).shared = s.shared := by
  have hnames := h.named v
  rw [hpc] at hnames
  exact ⟨h.quiet rfl rfl hnames (SameShapes.refl _) (by rw [hpc]; rfl), rfl⟩

/-- A call to the file system leaves the graph alone. -/
theorem inv_fsCall {fault : Option Int} {op : Disk → Except Int Disk} {fail : Int → Pc} {next : Pc}
    (hfail : ∀ err, (fail err).names = [] ∧ (fail err).held = (s.threads v).held)
    (hnames : ∀ n ∈ next.names, Names s v n) (hheld : next.held = (s.threads v).held) :
    Inv lost (fsCall fault op v fail next s) ∧
      (fsCall fault op v fail next s).shared = s.shared := by
  have hfailed (err : Int) : Inv lost (s.setThread v (fail err)) := by
    refine h.quiet rfl rfl (fun n hn => ?_) (SameShapes.refl _) (hfail err).2
    rw [(hfail err).1] at hn
    cases hn
  unfold fsCall
  split
  · exact ⟨hfailed _, rfl⟩
  split
  · exact ⟨hfailed _, rfl⟩
  · exact ⟨h.quiet rfl rfl hnames (SameShapes.refl _) hheld, rfl⟩

theorem inv_callTask {task : Task} {childPath actualName : Bytes}
    (hpc : s.threads v = .call task childPath actualName)
    (hstep : callTask cfg o task childPath actualName v s = some s') :
    Inv lost s' ∧ s'.shared = s.shared := by
  have hnames := h.named v
  rw [hpc] at hnames
  have hheld : task.held = (s.threads v).held := by rw [hpc]; rfl
  have hidle (res : Int) (hnone : task.held = none) : Inv lost (s.setThread v (.idle res)) :=
    h.quiet rfl rfl (fun n hn => by cases hn) (SameShapes.refl _) (hnone.symm.trans hheld)
  cases task with
  | entry op nodeid name =>
      obtain ⟨parent, -, hstep⟩ := Option.bind_eq_some_iff.1 hstep
      split at hstep
      · obtain rfl := Option.some.inj hstep
        exact ⟨hidle _ rfl, rfl⟩
      cases op with
      | lookup =>
          obtain rfl := Option.some.inj hstep
          exact ⟨h.quiet rfl rfl hnames (SameShapes.refl _) hheld, rfl⟩
      | mknod =>
          obtain rfl := Option.some.inj hstep
          exact inv_fsCall h (fun err => ⟨rfl, hheld⟩) hnames hheld
      | mkdir =>
          obtain rfl := Option.some.inj hstep
          have hafter : (afterMkdir cfg parent nodeid name childPath actualName).names = [nodeid] ∧
              (afterMkdir cfg parent nodeid name childPath actualName).held = none := by
            rw [afterMkdir]
            repeat' split
            all_goals exact ⟨rfl, rfl⟩
          refine inv_fsCall h (fun err => ⟨rfl, hheld⟩) ?_ (hafter.2.trans hheld)
          rw [hafter.1]
          exact hnames
  | remove op nodeid name =>
      obtain ⟨parent, -, hstep⟩ := Option.bind_eq_some_iff.1 hstep
      split at hstep
      · obtain rfl := Option.some.inj hstep
        exact ⟨hidle _ rfl, rfl⟩
      cases op with
      | unlink =>
          obtain rfl := Option.some.inj hstep
          exact inv_fsCall h (fun err => ⟨rfl, hheld⟩) hnames hheld
      | rmdir =>
          obtain rfl := Option.some.inj hstep
          exact inv_fsCall h (fun err => ⟨rfl, hheld⟩) hnames hheld
  | rename nodeid oldName newdir newName child oldChildPath =>
      obtain rfl := Option.some.inj hstep
      exact inv_fsCall h (fun err => ⟨rfl, hheld⟩)
        (fun n hn => hnames n (List.mem_cons_of_mem nodeid hn)) hheld

theorem inv_fuseReplyEntry {nodeid : NodeId} {name actualName : Bytes}
    (hpc : s.threads v = .replyEntry nodeid name actualName) (hroom : Room s (.run v o))
    (hstep : fuseReplyEntry cfg o nodeid name actualName v s = some s') :
    Inv lost s' ∧ Effect cfg s (.run v o) s' := by
  have hnamed : Names s v nodeid := by
    apply h.named v nodeid
    rw [hpc]
    exact List.mem_singleton_self nodeid
  have hheld : (s.threads v).held = none := by rw [hpc]; rfl
  rw [Room, hpc] at hroom
  obtain ⟨pnode, hp⟩ := h.live hnamed
  obtain ⟨⟨found, shared⟩, hacquire, hstep⟩ := Option.bind_eq_some_iff.1 hstep
  rcases acquireOrCreateChild_spec cfg h.balanced hp hroom o.alloc actualName with
    hfailed | ⟨c, shared', hdone, hbalanced, hpackages, hentry⟩
  · obtain ⟨rfl, rfl⟩ := Prod.mk.inj (Option.some.inj (hacquire.symm.trans hfailed))
    obtain rfl := Option.some.inj hstep
    exact ⟨h.quiet rfl rfl (fun n hn => by cases hn) (SameShapes.refl _) hheld.symm,
      .stays (Stays.of_shared rfl)⟩
  · obtain ⟨rfl, rfl⟩ := Prod.mk.inj (Option.some.inj (hacquire.symm.trans hdone))
    obtain rfl := Option.some.inj hstep
    refine ⟨h.take rfl rfl (fun n hn => by cases hn) hbalanced hheld rfl, ?_⟩
    obtain hkeeps | ⟨hmissing, hcreated⟩ := hentry
    · exact .stays ⟨hkeeps, hpackages⟩
    · exact .creates v o nodeid name actualName c rfl hpc hmissing hcreated hpackages

/-- The reference of an entry that is written becomes the kernel's, or is lost. -/
theorem inv_fuseReply {node : NodeId} (hpc : s.threads v = .writeEntry node) :
    ∃ lost', Inv lost' (fuseReply o node v s) ∧ (o.written = true → lost' = lost) := by
  refine ⟨fun n => lost n + if o.written = true then 0 else if n = node then 1 else 0,
    ⟨?_, fun w m hm => ?_⟩, fun hwritten => ?_⟩
  · have hrefs : (fun n => refs (fuseReply o node v s) n +
        (lost n + if o.written = true then 0 else if n = node then 1 else 0)) =
        fun n => refs s n + lost n := by
      funext n
      have hservice := inService_fuseReply o hpc n
      rw [refs, refs, entries_fuseReply]
      by_cases hwritten : o.written = true
      · simp only [hwritten, true_and, if_true]
        omega
      · rw [if_neg hwritten, if_neg fun hall => hwritten hall.1]
        omega
    rw [hrefs]
    exact h.balanced
  · -- of the other threads, each names what it named
    by_cases hw : w = v
    · subst hw
      rw [threads_fuseReply, Function.update_self] at hm
      cases hm
    · rw [threads_fuseReply, Function.update_of_ne hw] at hm
      apply (h.named w m hm).imp_right
      intro hpos
      rw [delivered_fuseReply]
      omega
  · funext n
    rw [if_pos hwritten, Nat.add_zero]

theorem inv_markDeleted {nodeid : NodeId} {name : Bytes}
    (hpc : s.threads v = .markDeleted nodeid name)
    (hstep : markDeleted nodeid name v s = some s') :
    Inv lost s' ∧ Effect cfg s (.run v o) s' := by
  have hheld : (s.threads v).held = none := by rw [hpc]; rfl
  obtain ⟨found, hfound, hstep⟩ := Option.bind_eq_some_iff.1 hstep
  cases found with
  | none =>
      obtain rfl := Option.some.inj hstep
      exact ⟨h.quiet rfl rfl (fun n hn => by cases hn) (SameShapes.refl _) hheld.symm,
        .stays (Stays.of_shared rfl)⟩
  | some child =>
      obtain ⟨node, hnode, hstep⟩ := Option.bind_eq_some_iff.1 hstep
      obtain rfl := Option.some.inj hstep
      have hshapes : SameShapes s.shared.nodes
          (s.shared.nodes.set child { node with deleted := true }) := SameShapes.set hnode rfl
      exact ⟨h.quiet rfl rfl (fun n hn => by cases hn) hshapes hheld.symm,
        .marks v o nodeid name child node rfl hpc hfound hnode rfl rfl⟩

theorem inv_relink {newdir child : NodeId} {newName newActualName : Bytes}
    (hpc : s.threads v = .relink newdir newName newActualName child) (hroom : Room s (.run v o))
    (hstep : relink cfg o newdir newName newActualName child v s = some s') :
    Inv lost s' ∧ Effect cfg s (.run v o) s' := by
  have hnamed : Names s v newdir := by
    apply h.named v newdir
    rw [hpc]
    exact List.mem_singleton_self newdir
  have hheld : (s.threads v).held = some child := by rw [hpc]; rfl
  have hchild : 0 < refs s child + lost child := refs_pos_of_held hheld
  rw [Room, hpc] at hroom
  obtain ⟨⟨res, g₁⟩, hrelink, hstep⟩ := Option.bind_eq_some_iff.1 hstep
  obtain ⟨g₂, hrelease, hstep⟩ := Option.bind_eq_some_iff.1 hstep
  obtain rfl := Option.some.inj hstep
  obtain ⟨hbalanced₁, hmoved⟩ :=
    relinkNodes_spec h.balanced hchild hnamed.refs_pos hroom hrelink
  obtain ⟨g₃, hrelease₃, hbalanced₃, hkeeps⟩ := releaseNode_spec hbalanced₁ hchild
  obtain rfl : g₂ = g₃ := Option.some.inj (hrelease.symm.trans hrelease₃)
  refine ⟨h.give rfl rfl (fun n hn => by cases hn) hbalanced₃ hheld rfl, ?_⟩
  obtain rfl | hrelinked := hmoved
  · exact .stays ⟨hkeeps, rfl⟩
  · exact .relinks v o newdir newName newActualName child g₁ rfl hpc hrelinked hkeeps rfl

theorem inv_ioError {child : NodeId} {res : Int} (hpc : s.threads v = .ioError child res)
    (hstep : ioError child res v s = some s') : Inv lost s' ∧ Stays s s' := by
  have hheld : (s.threads v).held = some child := by rw [hpc]; rfl
  obtain ⟨g₂, hrelease, hstep⟩ := Option.bind_eq_some_iff.1 hstep
  obtain rfl := Option.some.inj hstep
  obtain ⟨g₃, hrelease₃, hbalanced, hkeeps⟩ :=
    releaseNode_spec h.balanced (refs_pos_of_held hheld : 0 < refs s child + lost child)
  obtain rfl : g₂ = g₃ := Option.some.inj (hrelease.symm.trans hrelease₃)
  exact ⟨h.give rfl rfl (fun n hn => by cases hn) hbalanced hheld rfl, hkeeps, rfl⟩

theorem inv_handleForget {nlookup : Nat} (hidle : (s.threads v).isIdle = true)
    (hle : nlookup ≤ s.delivered v n) (hstep : handleForget v n nlookup s = some s') :
    Inv lost s' ∧ Stays s s' := by
  have hself := le_sum (fun w => s.delivered w n) v
  have hmany : nlookup ≤ refs s n + lost n := by
    rw [refs, entries]
    omega
  obtain ⟨g', htimes, hstep⟩ := Option.bind_eq_some_iff.1 hstep
  obtain rfl := Option.some.inj hstep
  obtain ⟨g₂, htimes₂, hbalanced, hkeeps⟩ := releaseTimes_spec nlookup h.balanced hmany
  obtain rfl : g' = g₂ := Option.some.inj (htimes.symm.trans htimes₂)
  refine ⟨⟨?_, fun w m hm => ?_⟩, hkeeps, rfl⟩
  · have hrefs : (fun m => rootRefs m + ∑ w, Function.update s.delivered v
          (Function.update (s.delivered v) n (s.delivered v n - nlookup)) w m +
          inService s m + lost m) =
        Function.update (fun m => refs s m + lost m) n (refs s n + lost n - nlookup) := by
      funext m
      have hsum := sum_update (fun w => s.delivered w m) (fun w => Function.update s.delivered v
        (Function.update (s.delivered v) n (s.delivered v n - nlookup)) w m) v
        fun w hw => by rw [Function.update_of_ne hw]
      rw [Function.update_self] at hsum
      by_cases hmn : m = n
      · subst hmn
        rw [Function.update_self] at hsum ⊢
        rw [refs, entries]
        omega
      · rw [Function.update_of_ne hmn] at hsum ⊢
        rw [refs, entries]
        omega
    show Balanced g' fun m => rootRefs m + ∑ w, Function.update s.delivered v
      (Function.update (s.delivered v) n (s.delivered v n - nlookup)) w m + inService s m + lost m
    rw [hrefs]
    exact hbalanced
  · have hold := h.named w m hm
    by_cases hw : w = v
    · subst hw
      obtain ⟨res, hpc⟩ := Pc.eq_idle hidle
      have hm' : m ∈ (s.threads w).names := hm
      rw [hpc] at hm'
      cases hm'
    · apply hold.imp_right
      intro hpos
      show 0 < Function.update s.delivered v _ w m
      rw [Function.update_of_ne hw]
      exact hpos

theorem inv_readPackageList {packages : AppIdMap}
    (hstep : readPackageList cfg packages s = some s') :
    Inv lost s' ∧ Effect cfg s (.reload packages) s' := by
  obtain ⟨g', hderive, hstep⟩ := Option.bind_eq_some_iff.1 hstep
  obtain rfl := Option.some.inj hstep
  have hshapes : SameShapes s.shared.nodes g' := sameShapes_deriveWithin _ _ _ _ hderive
  exact ⟨⟨h.balanced.congr hshapes, h.named⟩, .reloads packages rfl hderive rfl⟩

end Pieces

/-! ### One step -/

/-- The invariant goes on, over the replies lost so far, and the step has its effect. -/
def Steps (cfg : Config) (lost : NodeId → Nat) (s : System) (e : Event) (s' : System) : Prop :=
  ∃ lost', Inv lost' s' ∧ (Delivers s e → lost' = lost) ∧ Effect cfg s e s'

theorem Steps.of_effect {e : Event} (hdone : Inv lost s' ∧ Effect cfg s e s') :
    Steps cfg lost s e s' := ⟨lost, hdone.1, fun _ => rfl, hdone.2⟩

theorem Steps.of_stays {e : Event} (hdone : Inv lost s' ∧ Stays s s') : Steps cfg lost s e s' :=
  .of_effect ⟨hdone.1, .stays hdone.2⟩

theorem Steps.of_shared {e : Event} (hdone : Inv lost s' ∧ s'.shared = s.shared) :
    Steps cfg lost s e s' := .of_stays ⟨hdone.1, Stays.of_shared hdone.2⟩

theorem inv_advance (h : Inv lost s) (hroom : Room s (.run v o))
    (hstep : advance cfg v o s = some s') : Steps cfg lost s (.run v o) s' := by
  rw [advance] at hstep
  cases hpc : s.threads v with
  | idle res =>
      rw [hpc] at hstep
      obtain rfl := Option.some.inj hstep
      exact .of_shared ⟨h, rfl⟩
  | resolve req =>
      rw [hpc] at hstep
      exact .of_stays (inv_resolve h hpc hroom hstep)
  | access task parentPath =>
      rw [hpc] at hstep
      obtain rfl := Option.some.inj hstep
      exact .of_shared (inv_findFileWithin h hpc)
  | search task parentPath =>
      rw [hpc] at hstep
      obtain rfl := Option.some.inj hstep
      exact .of_shared (inv_searchDirectory h hpc)
  | call task childPath actualName =>
      rw [hpc] at hstep
      exact .of_shared (inv_callTask h hpc hstep)
  | nomedia nodeid name childPath actualName nomedia =>
      have hnames := h.named v
      rw [hpc] at hstep hnames
      obtain rfl := Option.some.inj hstep
      exact .of_shared
        (inv_fsCall h (fun err => ⟨rfl, by rw [hpc]; rfl⟩) hnames (by rw [hpc]; rfl))
  | lstat nodeid name childPath actualName =>
      have hnames := h.named v
      rw [hpc] at hstep hnames
      obtain rfl := Option.some.inj hstep
      exact .of_shared
        (inv_fsCall h (fun err => ⟨rfl, by rw [hpc]; rfl⟩) hnames (by rw [hpc]; rfl))
  | replyEntry nodeid name actualName =>
      rw [hpc] at hstep
      exact .of_effect (inv_fuseReplyEntry h hpc hroom hstep)
  | writeEntry node =>
      rw [hpc] at hstep
      obtain rfl := Option.some.inj hstep
      obtain ⟨lost', hinv, hlost⟩ := inv_fuseReply (o := o) h hpc
      refine ⟨lost', hinv, fun hdelivers => hlost ?_, .stays (Stays.of_shared rfl)⟩
      rw [Delivers, hpc] at hdelivers
      exact hdelivers
  | markDeleted nodeid name =>
      rw [hpc] at hstep
      exact .of_effect (inv_markDeleted h hpc hstep)
  | notify nodeid child name =>
      rw [hpc] at hstep
      obtain rfl := Option.some.inj hstep
      exact .of_shared ⟨h.quiet rfl rfl (fun n hn => by cases hn) (SameShapes.refl _)
        (by rw [hpc]; rfl), rfl⟩
  | relink newdir newName newActualName child =>
      rw [hpc] at hstep
      exact .of_effect (inv_relink h hpc hroom hstep)
  | ioError child res =>
      rw [hpc] at hstep
      exact .of_stays (inv_ioError h hpc hstep)

/-- One step, whatever it is. -/
theorem inv_perform {e : Event} (h : Inv lost s) (hroom : Room s e)
    (hstep : perform cfg s e = some s') : Steps cfg lost s e s' := by
  cases e with
  | request v req =>
      rw [perform] at hstep
      split at hstep
      · rename_i hguard
        obtain ⟨hidle, hnames⟩ := hguard
        obtain ⟨res, hpc⟩ := Pc.eq_idle hidle
        obtain rfl := Option.some.inj hstep
        refine .of_shared ⟨h.quiet rfl rfl (fun n hn => ?_) (SameShapes.refl _) ?_, rfl⟩
        · exact of_decide_eq_true (List.all_eq_true.1 hnames n hn)
        · rw [hpc]
          rfl
      · obtain rfl := Option.some.inj hstep
        exact .of_shared ⟨h, rfl⟩
  | forget v nodeid nlookup =>
      rw [perform] at hstep
      split at hstep
      · rename_i hguard
        exact .of_stays (inv_handleForget h hguard.1 hguard.2 hstep)
      · obtain rfl := Option.some.inj hstep
        exact .of_shared ⟨h, rfl⟩
  | reload packages => exact .of_effect (inv_readPackageList h hstep)
  | run v o => exact inv_advance h hroom hstep

/-! ### Runs -/

/-- A crash ends the run; the graph stays as it was. -/
theorem inv_step (cfg : Config) {e : Event} (h : Inv lost s) (hroom : Room s e) :
    ∃ lost', Inv lost' (step cfg s e) ∧ (Delivers s e → lost' = lost) := by
  rw [step]
  split
  · exact ⟨lost, h, fun _ => rfl⟩
  · split
    · exact ⟨lost, ⟨h.balanced, h.named⟩, fun _ => rfl⟩
    · rename_i s' hperform
      obtain ⟨lost', hinv, hlost, -⟩ := inv_perform h hroom hperform
      exact ⟨lost', hinv, hlost⟩

theorem refs_start (cfg : Config) (multiUser : Bool) (userid : Nat) (disk : Disk) (n : NodeId) :
    refs (start cfg multiUser userid disk) n = rootRefs n := by
  have hentries : entries (start cfg multiUser userid disk) n = 0 := Finset.sum_const_zero
  have hservice : inService (start cfg multiUser userid disk) n = 0 := Finset.sum_const_zero
  rw [refs, hentries, hservice]
  rfl

/-- The root is all there is at first. -/
theorem start_nodes (cfg : Config) (multiUser : Bool) (userid : Nat) (disk : Disk) (n : NodeId) :
    (start cfg multiUser userid disk).shared.nodes n =
      if n = rootId then some (rootNode cfg multiUser userid) else none :=
  Function.update_apply (fun _ => none) rootId (some (rootNode cfg multiUser userid)) n

theorem start_nodes_some {cfg : Config} {multiUser : Bool} {userid : Nat} {disk : Disk}
    {node : Node}
    (hn : (start cfg multiUser userid disk).shared.nodes n = some node) :
    n = rootId ∧ node = rootNode cfg multiUser userid := by
  rw [start_nodes] at hn
  split at hn
  · rename_i hroot
    exact ⟨hroot, (Option.some.inj hn).symm⟩
  · cases hn

theorem inv_start (cfg : Config) (multiUser : Bool) (userid : Nat) (disk : Disk) :
    Inv (fun _ => 0) (start cfg multiUser userid disk) := by
  refine ⟨⟨fun _ => [], ⟨fun p node hp => ?_, fun p c => ?_, fun p hp => absurd rfl hp⟩,
    ⟨fun n node hn => ?_, fun n node hn _ => ?_, fun n hn => ?_⟩⟩, fun v n hn => by cases hn⟩
  · obtain ⟨-, rfl⟩ := start_nodes_some hp
    rfl
  · apply iff_of_false List.not_mem_nil
    rintro ⟨-, node, hc, hparent⟩
    obtain ⟨-, rfl⟩ := start_nodes_some hc
    cases hparent
  · obtain ⟨rfl, rfl⟩ := start_nodes_some hn
    rw [refs_start]
    rfl
  · obtain ⟨-, rfl⟩ := start_nodes_some hn
    exact Nat.succ_pos _
  · rw [refs_start, rootRefs, if_neg]
    rintro rfl
    rw [start_nodes, if_pos rfl] at hn
    cases hn

/-- Every count is the number of references, and a node is there exactly while there are some. -/
structure Exact (s : System) (kids : NodeId → List NodeId) : Prop where
  children : ∀ p node, s.shared.nodes p = some node →
    Chain s.shared.nodes Node.next node.child (kids p)
  child : ∀ p c, c ∈ kids p ↔ ∃ node, s.shared.nodes c = some node ∧ node.parent = some p
  count : ∀ n node, s.shared.nodes n = some node →
    node.refcount = entries s n + (kids n).length + rootRefs n + inService s n
  freed : ∀ n, s.shared.nodes n = none ↔
    entries s n + (kids n).length + rootRefs n + inService s n = 0

theorem Inv.exact (h : Inv (fun _ => 0) s) : ∃ kids, Exact s kids := by
  obtain ⟨kids, hlinked, hcounted⟩ := h.balanced
  have hcount : ∀ n node, s.shared.nodes n = some node →
      node.refcount = entries s n + (kids n).length + rootRefs n + inService s n := by
    intro n node hn
    rw [hcounted.count n node hn, refs]
    omega
  refine ⟨kids, hlinked.chain, fun p c => ?_, hcount, fun n => ⟨fun hn => ?_, fun hzero => ?_⟩⟩
  · rw [hlinked.mem]
    exact and_iff_right List.not_mem_nil
  · have hempty : kids n = [] := by
      by_contra hne
      obtain ⟨node, hnode⟩ := hlinked.home n hne
      cases hn.symm.trans hnode
    have hdead := hcounted.dead n hn
    rw [refs] at hdead
    rw [hempty, List.length_nil]
    omega
  · cases hn : s.shared.nodes n with
    | none => rfl
    | some node =>
        have hpos := hcounted.pos n node hn List.not_mem_nil
        rw [hcount n node hn] at hpos
        omega

/-- No request is being served. -/
def Quiet (s : System) : Prop := ∀ v, (s.threads v).isIdle = true

instance (s : System) : Decidable (Quiet s) :=
  inferInstanceAs (Decidable (∀ v, (s.threads v).isIdle = true))

theorem Quiet.inService (h : Quiet s) (n : NodeId) : inService s n = 0 := by
  apply Finset.sum_eq_zero
  intro v _
  obtain ⟨res, hpc⟩ := Pc.eq_idle (h v)
  rw [hpc]
  rfl

/-- In every run in which each entry that is written reaches its kernel and no count overflows,
every node's count is exact all the time; between requests, nothing is in service. -/
theorem refcounts_exact (cfg : Config) (multiUser : Bool) (userid : Nat) (disk : Disk)
    (events : List Event)
    (hevents : Run.EachStep (step cfg) (fun s e => Delivers s e ∧ Room s e)
      (start cfg multiUser userid disk) events) :
    Run.Always (step cfg)
      (fun s => (∃ kids, Exact s kids) ∧ (Quiet s → ∀ n, inService s n = 0))
      (start cfg multiUser userid disk) events := by
  have hinv : Run.Always (step cfg) (Inv fun _ => 0) (start cfg multiUser userid disk) events := by
    refine Run.always_of_eachStep (fun s e h hok => ?_) (inv_start ..) hevents
    obtain ⟨lost', hnext, hlost⟩ := inv_step cfg h hok.2
    rw [hlost hok.1] at hnext
    exact hnext
  exact hinv.mono fun s h => ⟨h.exact, fun hquiet => hquiet.inService⟩

/-! ### A lost reply -/

/-- A step that meets nothing unusual. -/
def smooth (alloc : Option NodeId) : Outside where
  alloc := alloc
  memory := true
  written := true
  fault := none

/-- A view looks a name up, and the node for it is `node` if it is new. -/
def lookupEvents (v : View) (nodeid : NodeId) (name : Bytes) (node : NodeId) : List Event :=
  .request v (.entry .lookup nodeid name) :: List.replicate 6 (.run v (smooth (some node)))

/-- A card with two directories, one of them with a directory in it: `/a/x` and `/b`. -/
def card : Disk where
  entries := [([0x73], .dir), ([0x73, 0x2F, 0x61], .dir), ([0x73, 0x2F, 0x61, 0x2F, 0x78], .dir),
    ([0x73, 0x2F, 0x62], .dir)]

def cardConfig : Config where
  sourcePath := [0x73]
  obbPath := [0x73, 0x2F, 0x6F]
  multiuserGetUid := fun userid appid => userid * 100000 + appid % 100000

/-- Two views look up `/a`, one moves `/a/x` to `/b/x`, and what was looked up is forgotten. -/
def servedRun : List Event :=
  lookupEvents .default 1 [0x61] 2 ++ lookupEvents .read 1 [0x61] 5 ++
    lookupEvents .default 2 [0x78] 3 ++ lookupEvents .default 1 [0x62] 4 ++
    [.request .default (.rename 2 [0x78] 4 [0x78])] ++
    List.replicate 5 (.run .default (smooth none)) ++
    [.forget .default 3 1, .forget .default 4 1, .forget .read 2 1, .forget .default 2 1]

theorem refcounts_exact_servedRun :
    Run.Always (step cardConfig)
      (fun s => (∃ kids, Exact s kids) ∧ (Quiet s → ∀ n, inService s n = 0))
      (start cardConfig false 0 card) servedRun :=
  refcounts_exact cardConfig false 0 card servedRun (by decide)

/-- A lookup whose reply does not reach the kernel. -/
def lostRun : List Event :=
  .request .default (.entry .lookup 1 [0x61]) ::
    (List.replicate 5 (.run .default (smooth (some 2))) ++
      [.run .default { smooth none with written := false }])

/-- The node of a lost reply keeps its reference for ever. -/
theorem lost_reply_keeps_reference :
    ¬ Run.Always (step cardConfig)
      (fun s => (∃ kids, Exact s kids) ∧ (Quiet s → ∀ n, inService s n = 0))
      (start cardConfig false 0 card) lostRun := by
  intro halways
  obtain ⟨⟨kids, hexact⟩, -⟩ := halways.final
  obtain ⟨node, hnode, hrefcount, hchild⟩ : ∃ node,
      (Run.final (step cardConfig) (start cardConfig false 0 card) lostRun).shared.nodes 2 =
        some node ∧ node.refcount = 1 ∧ node.child = none := by
    refine ⟨((Run.final (step cardConfig) (start cardConfig false 0 card) lostRun).shared.nodes
      2).get (by decide), (Option.some_get _).symm, ?_, ?_⟩ <;> decide
  have hnone : entries (Run.final (step cardConfig) (start cardConfig false 0 card) lostRun) 2 +
      rootRefs 2 +
      inService (Run.final (step cardConfig) (start cardConfig false 0 card) lostRun) 2 = 0 := by
    decide
  have hempty : kids 2 = [] := by
    have hchain := hexact.children 2 node hnode
    rw [hchild] at hchain
    cases hkids : kids 2 with
    | nil => rfl
    | cons c l =>
        rw [hkids] at hchain
        cases hchain.1
  have hcount := hexact.count 2 node hnode
  rw [hempty, List.length_nil] at hcount
  omega

end LineageA1000.Fuse
