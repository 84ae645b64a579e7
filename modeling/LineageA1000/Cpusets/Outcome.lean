import LineageA1000.Cpusets.Nesting

/-!
# What the cpusets are for

Three things follow from the invariants. The scheduler gets the best partition into domains at every
rebuild, but on this kernel it may hold a CPU that is not active. The CPUs of a cpuset nobody writes
stay what they were through any hotplug that leaves it one of them at each turn of its work. And no
task stays behind in a cpuset without CPUs or memory.
-/

namespace LineageA1000.Cpusets

variable {Cpu Node : Type*} [DecidableEq Cpu] [DecidableEq Node]

section Domains

variable {active : Finset Cpu} {memory : Finset Node} {levelMax : Int} {tasks : Nat}
  {events : List (Event Cpu Node)}

/-- What `generate_sched_domains` must give: as many domains as it says, the root's CPUs when the
root is to be balanced and the best partial partition otherwise. -/
def GivesPartition (s : System Cpu Node) (d : SchedDomains Cpu) : Prop :=
  ∀ doms, d.doms = some doms → d.ndoms = doms.length ∧
    if (s.cpusets topCpuset).isSchedLoadBalance then doms = [(s.cpusets topCpuset).cpusAllowed]
    else IsPartition s doms

/-- In a run in which writes of masks have waited for hotplug, `generate_sched_domains` ends in every
state in which no hotplug work goes round, with the array for `csa` long enough, and gives the best
partition. -/
theorem domains_always (hactive : active ≠ ∅) (hmemory : memory ≠ ∅)
    (hevents : Run.EachStep next (fun s e => Possible s e ∧ Waited s e)
      (booted active memory levelMax tasks) events) :
    Run.Always next (fun s => s.hotplug.running = false →
        (s.csa.length : Int) < s.numberOfCpusets ∧
          ∀ alloc, ∃ d, generateSchedDomains s alloc = some d ∧ GivesPartition s d)
      (booted active memory levelMax tasks) events := by
  refine (nests_always hactive hmemory hevents).mono ?_
  rintro s ⟨hk, hn⟩ hrest
  refine ⟨length_csa_lt hk.toTree, fun alloc => ?_⟩
  obtain ⟨d, hd, hspec⟩ := generateSchedDomains_spec hk.toTree alloc
  refine ⟨d, hd, fun doms hdoms => ?_⟩
  obtain ⟨hlength, hpartition⟩ := hspec doms hdoms
  refine ⟨hlength, ?_⟩
  split
  · rename_i htop
    rwa [if_pos htop] at hpartition
  · rename_i htop
    rw [if_neg htop] at hpartition
    exact hpartition (hn.proper hrest).nested

theorem domains_always_screenCycle :
    Run.Always next (fun s => s.hotplug.running = false →
        (s.csa.length : Int) < s.numberOfCpusets ∧
          ∀ alloc, ∃ d, generateSchedDomains s alloc = some d ∧ GivesPartition s d)
      (booted {0, 1, 2, 3} {0} 4 100) screenCycle :=
  domains_always (by decide) (by decide) (by decide)

omit [DecidableEq Node] [DecidableEq Cpu] in
theorem IsPartition.subset_iff {s : System Cpu Node} {doms : List (Finset Cpu)}
    (h : IsPartition s doms) (mask : Finset Cpu) :
    (∀ D ∈ doms, D ⊆ mask) ↔ ∀ c, Balanced s c → (s.cpusets c).cpusAllowed ⊆ mask := by
  constructor
  · intro hdoms c hc
    by_cases hempty : (s.cpusets c).cpusAllowed = ∅
    · rw [hempty]
      exact Finset.empty_subset mask
    · obtain ⟨D, hD, hsub⟩ := h.covers c hc hempty
      exact hsub.trans (hdoms D hD)
  · intro hsub D hD
    -- The whole mask is a family of one set into which every cpuset to be balanced fits.
    obtain ⟨S, hS, hDS⟩ := h.finest {(mask : Set Cpu)} (Set.pairwiseDisjoint_singleton _ _)
      (fun c hc => ⟨mask, rfl, Finset.coe_subset.2 (hsub c hc)⟩) D hD
    rw [Set.mem_singleton_iff.1 hS] at hDS
    exact Finset.coe_subset.1 hDS

/-- The guard of `rebuild_sched_domains_locked` keeps inactive CPUs from the scheduler exactly when
the root is to be balanced, or no cpuset that is to be balanced has kept a CPU that went away. -/
theorem rebuild_active_iff (hactive : active ≠ ∅) (hmemory : memory ≠ ∅)
    (hevents : Run.EachStep next (fun s e => Possible s e ∧ Waited s e)
      (booted active memory levelMax tasks) events) :
    Run.Always next (fun s => s.hotplug.running = false →
        (s.cpusets topCpuset).cpusAllowed = s.cpuActiveMask →
        ∀ alloc s', rebuildSchedDomainsLocked s alloc = some s' →
          ∀ doms, s'.domains.doms = some doms →
            ((∀ D ∈ doms, D ⊆ s.cpuActiveMask) ↔
              (s.cpusets topCpuset).isSchedLoadBalance = true ∨
                ∀ c, Balanced s c → (s.cpusets c).cpusAllowed ⊆ s.cpuActiveMask))
      (booted active memory levelMax tasks) events := by
  refine (nests_always hactive hmemory hevents).mono ?_
  rintro s ⟨hk, hn⟩ hrest hsync alloc s' hs' doms hdoms
  obtain ⟨d, hd, hspec⟩ := generateSchedDomains_spec hk.toTree alloc
  rw [rebuildSchedDomainsLocked, if_neg (not_not.2 hsync), hd, Option.map_some] at hs'
  obtain rfl := Option.some.inj hs'
  obtain ⟨-, hpartition⟩ := hspec doms hdoms
  by_cases htop : (s.cpusets topCpuset).isSchedLoadBalance = true
  · rw [if_pos htop] at hpartition
    refine ⟨fun _ => .inl htop, fun _ D hD => ?_⟩
    rw [hpartition, List.mem_singleton] at hD
    rw [hD, hsync]
  · rw [if_neg htop] at hpartition
    rw [(hpartition (hn.proper hrest).nested).subset_iff, or_iff_right htop]

theorem rebuild_active_iff_screenCycle :
    Run.Always next (fun s => s.hotplug.running = false →
        (s.cpusets topCpuset).cpusAllowed = s.cpuActiveMask →
        ∀ alloc s', rebuildSchedDomainsLocked s alloc = some s' →
          ∀ doms, s'.domains.doms = some doms →
            ((∀ D ∈ doms, D ⊆ s.cpuActiveMask) ↔
              (s.cpusets topCpuset).isSchedLoadBalance = true ∨
                ∀ c, Balanced s c → (s.cpusets c).cpusAllowed ⊆ s.cpuActiveMask))
      (booted {0, 1, 2, 3} {0} 4 100) screenCycle :=
  rebuild_active_iff (by decide) (by decide) (by decide)

end Domains

/-! ### The CPUs of a cpuset nobody writes -/

section Unwritten

/-- The cpuset whose CPUs the event writes. -/
def Event.cpusWritten : Event Cpu Node → Option CsId
  | .writeResmask c .cpulist _ _ => some c
  | _ => none

/-- When the turn of the cpuset's hotplug work comes, one of its CPUs is left, if it has any. -/
def FindsCpu (c : CsId) (s : System Cpu Node) : Event Cpu Node → Prop
  | .propagate => s.queued.head? = some c → (s.cpusets c).cpusAllowed ≠ ∅ →
      ¬ Disjoint (s.cpusets c).cpusAllowed (s.cpusets topCpuset).cpusAllowed
  | _ => True

variable {s s' : System Cpu Node} {c : CsId}

theorem Changed.cpus {d : CsId} {file : Option FileType} (h : Changed s d file s')
    (hc : file = some .cpulist → d ≠ c) : (s'.cpusets c).cpusAllowed = (s.cpusets c).cpusAllowed := by
  cases h with
  | unchanged => rfl
  | written trial domains hw =>
      rw [System.setDomains_cpusets, update_apply]
      split
      · rename_i hcd
        rw [hcd]
        exact hw.cpus.resolve_right fun hmask => hc hmask.1 hcd.symm
      · rfl
  | relaxed level domains =>
      rw [System.setDomains_cpusets, update_apply]
      split
      · rename_i hcd
        rw [hcd]
      · rfl
  | pressure on => rfl

omit [DecidableEq Cpu] [DecidableEq Node] in
theorem SameButCounts.cpus (h : SameButCounts s s') :
    (s'.cpusets c).cpusAllowed = (s.cpusets c).cpusAllowed := by
  obtain ⟨n, attach, hc⟩ := h c
  rw [hc]

theorem remove_cpus (hk : Kept s) {d : CsId} {mem : Memory} (heq : remove s d mem = some s') :
    (s'.cpusets c).cpusAllowed = (s.cpusets c).cpusAllowed := by
  obtain ⟨t, hchange, ht⟩ := remove_eq hk.toTree d mem
  obtain rfl := Option.some.inj (ht.symm.trans heq)
  rw [← hchange.cpus (c := c) (fun hfile => by cases hfile)]
  change ((t.update d _).cpusets c).cpusAllowed = _
  rw [update_apply]
  split
  · rename_i hcd
    rw [hcd, Cpuset.setFlag_cpusAllowed]
  · rfl

/-- The CPUs of a cpuset that was made change only when they are written, or at the turn of its
hotplug work. -/
theorem next_cpus (hk : Kept s) (htop : c ≠ topCpuset) (hmade : c < s.nextId) {e : Event Cpu Node}
    (he : Possible s e) (hleaves : e.cpusWritten ≠ some c) :
    ((next s e).cpusets c).cpusAllowed = (s.cpusets c).cpusAllowed ∨
      e = .propagate ∧ s.queued.head? = some c ∧
        ((next s e).cpusets c).cpusAllowed =
          (trimmed (s.cpusets topCpuset) (s.cpusets c)).cpusAllowed := by
  obtain ⟨s', hs', -⟩ := hk.handle he
  rw [next, hs', Option.getD_some]
  have hcall : ∀ {d file result}, Returns s d file result → (file = some .cpulist → d ≠ c) →
      result.map Prod.fst = some s' →
      (s'.cpusets c).cpusAllowed = (s.cpusets c).cpusAllowed := by
    rintro d file _ ⟨t, r, rfl, hchange, -⟩ hother heq
    obtain rfl : t = s' := Option.some.inj heq
    exact hchange.cpus hother
  cases e with
  | create p clone =>
      obtain rfl := Option.some.inj hs'
      obtain ⟨cs, -, heq⟩ := create_eq hk.toTree he clone
      rw [heq]
      exact .inl (congrArg Cpuset.cpusAllowed (System.update_cpusets_of_ne s cs hmade.ne))
  | remove d mem => exact .inl (remove_cpus hk hs')
  | writeU64 d type val mem =>
      exact .inl (hcall (cpusetWriteU64_returns hk.toTree type val mem) (fun h => by cases h) hs')
  | writeS64 d type val mem =>
      exact .inl (hcall (cpusetWriteS64_returns hk.toTree type val mem) (fun h => by cases h) hs')
  | writeResmask d type text mem =>
      refine .inl (hcall (cpusetWriteResmask_returns hk.toTree type text mem) ?_ hs')
      rintro hfile
      obtain rfl := Option.some.inj hfile
      exact fun hdc => hleaves (congrArg some hdc)
  | tasks d n =>
      obtain rfl := Option.some.inj hs'
      exact .inl (sameButCounts_update ⟨_, _, rfl⟩).cpus
  | canAttach d refusal =>
      obtain rfl := Option.some.inj hs'
      rw [cpusetCanAttach]
      split
      · exact .inl rfl
      split
      · exact .inl rfl
      · exact .inl (sameButCounts_update ⟨_, _, rfl⟩).cpus
  | cancelAttach d =>
      obtain rfl := Option.some.inj hs'
      exact .inl (sameButCounts_update ⟨_, _, rfl⟩).cpus
  | attach src d n =>
      obtain rfl := Option.some.inj hs'
      have hcounts : SameButCounts s (cpusetCancelAttach (moveTasks s src d n) d) :=
        (sameButCounts_move s src d n).trans (sameButCounts_update ⟨_, _, rfl⟩)
      rw [cpusetAttach]
      split
      · obtain ⟨q, hq, -⟩ := schedule_queued (cpusetCancelAttach (moveTasks s src d n) d) d
        rw [hq]
        exact .inl hcounts.cpus
      · exact .inl hcounts.cpus
  | setActive mask | setMemory mask =>
      obtain rfl := Option.some.inj hs'
      exact .inl rfl
  | hotplugWork =>
      obtain rfl := Option.some.inj hs'
      obtain ⟨q, heq, -⟩ := cpusetHotplugWorkfn_eq hk.toTree
      rw [heq]
      exact .inl (congrArg Cpuset.cpusAllowed (System.update_cpusets_of_ne s _ htop))
  | propagate =>
      cases hq : s.queued with
      | nil => exact absurd hq he.1
      | cons d rest =>
          rw [handle.eq_def] at hs'
          simp only [hq] at hs'
          obtain rfl := Option.some.inj hs'
          by_cases hdc : d = c
          · subst hdc
            refine .inr ⟨rfl, rfl, ?_⟩
            exact congrArg Cpuset.cpusAllowed (System.update_cpusets_self ..)
          · refine .inl (congrArg Cpuset.cpusAllowed ?_)
            exact System.update_cpusets_of_ne _ _ (Ne.symm hdc)
  | transfer moved =>
      obtain ⟨d, hd⟩ := Option.ne_none_iff_exists'.1 he
      rw [handle.eq_def] at hs'
      simp only [hd] at hs'
      rw [removeTasksInEmptyCpuset, Option.map_eq_some_iff] at hs'
      obtain ⟨p, -, rfl⟩ := hs'
      cases moved with
      | true => exact .inl (sameButCounts_move s d p _).cpus
      | false => exact .inl rfl
  | hotplugDone mem =>
      obtain ⟨d, rfl⟩ := hotplugDone_eq hk.toTree hs'
      exact .inl rfl

theorem next_made (hk : Kept s) {e : Event Cpu Node} (he : Possible s e) (hmade : c < s.nextId) :
    c < (next s e).nextId := by
  obtain ⟨s', hs', -⟩ := hk.handle he
  rw [next, hs', Option.getD_some]
  have hcall : ∀ {d file result}, Returns s d file result → result.map Prod.fst = some s' →
      c < s'.nextId := by
    rintro d file _ ⟨t, r, rfl, hchange, -⟩ heq
    obtain rfl : t = s' := Option.some.inj heq
    rwa [hchange.framed.nextId]
  cases e with
  | create p clone =>
      obtain rfl := Option.some.inj hs'
      exact hmade.trans (Nat.lt_succ_self _)
  | remove d mem =>
      obtain ⟨t, hchange, ht⟩ := remove_eq hk.toTree d mem
      obtain rfl := Option.some.inj (ht.symm.trans hs')
      exact lt_of_lt_of_eq hmade hchange.framed.nextId.symm
  | writeU64 d type val mem => exact hcall (cpusetWriteU64_returns hk.toTree type val mem) hs'
  | writeS64 d type val mem => exact hcall (cpusetWriteS64_returns hk.toTree type val mem) hs'
  | writeResmask d type text mem =>
      exact hcall (cpusetWriteResmask_returns hk.toTree type text mem) hs'
  | tasks d n | cancelAttach d | setActive mask | setMemory mask =>
      obtain rfl := Option.some.inj hs'
      exact hmade
  | canAttach d refusal =>
      obtain rfl := Option.some.inj hs'
      rw [cpusetCanAttach]
      split
      · exact hmade
      split <;> exact hmade
  | attach src d n =>
      obtain rfl := Option.some.inj hs'
      rw [cpusetAttach]
      split
      · obtain ⟨q, hq, -⟩ := schedule_queued (cpusetCancelAttach (moveTasks s src d n) d) d
        rw [hq]
        exact hmade
      · exact hmade
  | hotplugWork =>
      obtain rfl := Option.some.inj hs'
      obtain ⟨q, heq, -⟩ := cpusetHotplugWorkfn_eq hk.toTree
      rw [heq]
      exact hmade
  | propagate =>
      cases hq : s.queued with
      | nil => exact absurd hq he.1
      | cons d rest =>
          rw [handle.eq_def] at hs'
          simp only [hq] at hs'
          obtain rfl := Option.some.inj hs'
          exact hmade
  | transfer moved =>
      obtain ⟨d, hd⟩ := Option.ne_none_iff_exists'.1 he
      rw [handle.eq_def] at hs'
      simp only [hd] at hs'
      rw [removeTasksInEmptyCpuset, Option.map_eq_some_iff] at hs'
      obtain ⟨p, -, rfl⟩ := hs'
      cases moved <;> exact hmade
  | hotplugDone mem =>
      obtain ⟨d, rfl⟩ := hotplugDone_eq hk.toTree hs'
      exact hmade

/-- The CPUs of a cpuset that nobody writes are the same throughout a run exactly when one of them
is left each time the cpuset's hotplug work has its turn. -/
theorem cpus_stay_iff (hk : Kept s) (htop : c ≠ topCpuset) (hmade : c < s.nextId)
    {events : List (Event Cpu Node)}
    (hevents : Run.EachStep next (fun s e => Possible s e ∧ e.cpusWritten ≠ some c) s events) :
    Run.Always next (fun t => (t.cpusets c).cpusAllowed = (s.cpusets c).cpusAllowed) s events ↔
      Run.EachStep next (FindsCpu c) s events := by
  refine Run.always_iff_eachStep_of_allowed
    (P := fun t => Kept t ∧ c < t.nextId ∧
      (t.cpusets c).cpusAllowed = (s.cpusets c).cpusAllowed)
    ?_ ?_ (fun t ht => ht.2.2) ⟨hk, hmade, rfl⟩ hevents
  · rintro t e ⟨ht, hmade, hsame⟩ ⟨he, hleaves⟩ hfinds
    refine ⟨ht.next he, next_made ht he hmade, ?_⟩
    rcases next_cpus ht htop hmade he hleaves with heq | ⟨rfl, hhead, heq⟩
    · rw [heq, hsame]
    · rw [heq, trimmed_cpus, ← hsame]
      split
      · rename_i hdisjoint
        by_contra hne
        exact hfinds hhead (Ne.symm hne) hdisjoint
      · rfl
  · rintro t e ⟨ht, hmade, hsame⟩ ⟨he, hleaves⟩ hnext
    cases e with
    | propagate =>
        intro hhead hne hdisjoint
        rw [← hsame] at hnext
        refine hne (hnext.symm.trans ?_)
        cases hq : t.queued with
        | nil => exact absurd hq he.1
        | cons d rest =>
            rw [hq, List.head?_cons] at hhead
            obtain rfl := Option.some.inj hhead
            rw [next, handle.eq_def]
            simp only [hq, Option.getD_some]
            refine (congrArg Cpuset.cpusAllowed (System.update_cpusets_self ..)).trans ?_
            exact (trimmed_cpus ..).trans (if_pos hdisjoint)
    | _ => trivial

/-- The state in which the first cpuset has been made and given its CPUs. -/
def fourCpus : System (Fin 4) (Fin 1) :=
  Run.final next (booted {0, 1, 2, 3} {0} 4 100) (screenCycle.take 2)

theorem fourCpus_kept : Kept fourCpus :=
  (Run.always_of_eachStep (Q := Possible) (fun _ _ hs he => hs.next he)
    (booted_kept (by decide) (by decide) 4 100) (by decide)).final

theorem cpus_stay_iff_screenCycle :
    Run.Always next (fun t => (t.cpusets 1).cpusAllowed = (fourCpus.cpusets 1).cpusAllowed)
        fourCpus (screenCycle.drop 2) ↔
      Run.EachStep next (FindsCpu 1) fourCpus (screenCycle.drop 2) :=
  cpus_stay_iff fourCpus_kept (by decide) (by decide) (by decide)

end Unwritten

/-! ### Tasks -/

section Tasks

/-- Where there are tasks there are CPUs and memory, or the work that moves the tasks is on its way. -/
def Housed (s : System Cpu Node) : Prop :=
  ∀ c, (s.cpusets c).taskCount ≠ 0 →
    (s.cpusets c).isEmpty = false ∨ c ∈ s.queued ∨ s.emptied = some c

/-- The core fails to move the tasks out of an empty cpuset. -/
def Event.strands : Event Cpu Node → Bool
  | .transfer moved => ! moved
  | _ => false

variable {s s' : System Cpu Node}

theorem Cpuset.isEmpty_congr {a b : Cpuset Cpu Node} (hcpus : a.cpusAllowed = b.cpusAllowed)
    (hmems : a.memsAllowed = b.memsAllowed) : a.isEmpty = b.isEmpty := by
  rw [Cpuset.isEmpty, Cpuset.isEmpty, hcpus, hmems]

/-- Events after which a cpuset with tasks had tasks before, and is as empty as before. -/
theorem Housed.same (h : Housed s)
    (htasks : ∀ c, (s'.cpusets c).taskCount ≠ 0 → (s.cpusets c).taskCount ≠ 0 ∧
      (s'.cpusets c).isEmpty = (s.cpusets c).isEmpty)
    (hqueued : ∀ c ∈ s.queued, c ∈ s'.queued) (hemptied : s'.emptied = s.emptied) : Housed s' := by
  intro c hc
  obtain ⟨hold, hempty⟩ := htasks c hc
  rw [hempty, hemptied]
  exact (h c hold).imp_right fun hwork => hwork.imp_left (hqueued c)

theorem Housed.call (h : Housed s) {c : CsId} {file : Option FileType}
    (hchange : Changed s c file s') : Housed s' := by
  have hf := hchange.framed
  cases hchange with
  | unchanged => exact h
  | written trial domains hw =>
      intro d hd
      rw [hf.tasks] at hd
      rw [System.setDomains_cpusets, update_apply]
      split
      · rename_i hdc
        subst hdc
        by_cases htop : d = topCpuset
        · have hcpus := hw.cpus.resolve_right fun hmask => hmask.2.1 htop
          have hmems := hw.mems.resolve_right fun hmask => hmask.2.1 htop
          rw [Cpuset.isEmpty_congr hcpus hmems]
          exact h d hd
        · exact .inl (hw.tasks htop (.inl hd))
      · exact h d hd
  | relaxed level domains =>
      refine h.same (fun d hd => ?_) (fun _ hd => hd) rfl
      rw [hf.tasks] at hd
      refine ⟨hd, ?_⟩
      rw [System.setDomains_cpusets, update_apply]
      split
      · rename_i hdc
        rw [hdc]
        rfl
      · rfl
  | pressure on => exact h

theorem Housed.remove (h : Housed s) (hk : Kept s) {c : CsId} {mem : Memory}
    (heq : remove s c mem = some s') : Housed s' := by
  obtain ⟨t, hchange, ht⟩ := remove_eq hk.toTree c mem
  obtain rfl := Option.some.inj (ht.symm.trans heq)
  refine (h.call hchange).same (fun d hd => ?_) (fun _ hd => hd) rfl
  change ((t.update c ((t.cpusets c).setFlag .online false)).cpusets d).taskCount ≠ 0 at hd
  change _ ∧ ((t.update c ((t.cpusets c).setFlag .online false)).cpusets d).isEmpty = _
  rw [update_apply] at hd ⊢
  split at hd
  · rename_i hdc
    rw [if_pos hdc, hdc]
    exact ⟨hd, rfl⟩
  · rename_i hdc
    rw [if_neg hdc]
    exact ⟨hd, rfl⟩

theorem isEmpty_move (s : System Cpu Node) (src dst : CsId) (n : Nat) (c : CsId) :
    ((moveTasks s src dst n).cpusets c).isEmpty = (s.cpusets c).isEmpty := by
  obtain ⟨m, attach, hc⟩ := sameButCounts_move s src dst n c
  rw [hc]
  rfl

omit [DecidableEq Cpu] [DecidableEq Node] in
theorem taskCount_move (s : System Cpu Node) {src dst c : CsId} (n : Nat) (hc : c ≠ dst) :
    ((moveTasks s src dst n).cpusets c).taskCount =
      if c = src then (s.cpusets c).taskCount - n else (s.cpusets c).taskCount := by
  rw [moveTasks, update_apply, if_neg hc, update_apply]
  split
  · rename_i hsrc
    rw [hsrc]
  · rfl

theorem Housed.attach (h : Housed s) (src c : CsId) (n : Nat) :
    Housed (cpusetAttach (moveTasks s src c n) c) := by
  have hcs : ∀ d, ((cpusetCancelAttach (moveTasks s src c n) c).cpusets d).isEmpty =
      (s.cpusets d).isEmpty ∧
      ((cpusetCancelAttach (moveTasks s src c n) c).cpusets d).taskCount =
        ((moveTasks s src c n).cpusets d).taskCount := by
    intro d
    rw [← isEmpty_move s src c n d, cpusetCancelAttach, update_apply]
    split
    · rename_i hdc
      rw [hdc]
      exact ⟨rfl, rfl⟩
    · exact ⟨rfl, rfl⟩
  have hold : ∀ d, d ≠ c → ((moveTasks s src c n).cpusets d).taskCount ≠ 0 →
      (s.cpusets d).taskCount ≠ 0 := by
    intro d hdc hd
    rw [taskCount_move s n hdc] at hd
    split at hd <;> omega
  rw [cpusetAttach]
  split
  · obtain ⟨q, hq, hmem⟩ := schedule_queued (cpusetCancelAttach (moveTasks s src c n) c) c
    rw [hq]
    intro d hd
    by_cases hdc : d = c
    · exact .inr (.inl ((hmem d).2 (.inr hdc)))
    · refine (h d (hold d hdc ((hcs d).2 ▸ hd))).imp (fun hfull => ?_)
        (fun hwork => hwork.imp_left fun hd' => (hmem d).2 (.inl hd'))
      exact (hcs d).1.trans hfull
  · rename_i hfull
    intro d hd
    by_cases hdc : d = c
    · rw [hdc]
      exact .inl (Bool.eq_false_iff.2 hfull)
    · exact (h d (hold d hdc ((hcs d).2 ▸ hd))).imp_left (hcs d).1.trans

theorem Housed.propagate (h : Housed s) {c : CsId} {rest : List CsId} (hq : s.queued = c :: rest)
    (hemptied : s.emptied = none) :
    Housed (cpusetPropagateHotplugWorkfn { s with queued := rest } c) := by
  intro d hd
  obtain ⟨cs, hcs⟩ : ∃ cs, cs = trimmed (s.cpusets topCpuset) (s.cpusets c) := ⟨_, rfl⟩
  change ((s.update c (trimmed (s.cpusets topCpuset) (s.cpusets c))).cpusets d).taskCount ≠ 0 at hd
  change ((s.update c (trimmed (s.cpusets topCpuset) (s.cpusets c))).cpusets d).isEmpty = false ∨
    d ∈ rest ∨ (if (trimmed (s.cpusets topCpuset) (s.cpusets c)).isEmpty then some c else none) =
      some d
  rw [← hcs] at hd ⊢
  rw [update_apply] at hd ⊢
  split
  · rename_i hdc
    cases hempty : cs.isEmpty with
    | true => exact .inr (.inr (hdc ▸ rfl))
    | false => exact .inl rfl
  · rename_i hdc
    rw [if_neg hdc] at hd
    rcases h d hd with hfull | hqueued | hnone
    · exact .inl hfull
    · rw [hq] at hqueued
      exact .inr (.inl ((List.mem_cons.1 hqueued).resolve_left hdc))
    · rw [hemptied] at hnone
      cases hnone

theorem Housed.transfer (h : Housed s) (hk : Kept s) {c : CsId} (hc : s.emptied = some c)
    (heq : removeTasksInEmptyCpuset s c true = some s') : Housed s' := by
  obtain ⟨p, hp, hfull⟩ := hk.exists_ancestor (Nat.lt_succ_self c) (hk.emptied c hc)
  rw [removeTasksInEmptyCpuset, hp, Option.map_some, if_pos rfl] at heq
  obtain rfl := Option.some.inj heq
  intro d hd
  change ((moveTasks s c p (s.cpusets c).taskCount).cpusets d).taskCount ≠ 0 at hd
  change ((moveTasks s c p (s.cpusets c).taskCount).cpusets d).isEmpty = false ∨ d ∈ s.queued ∨ _
  rw [isEmpty_move]
  by_cases hdp : d = p
  · exact .inl (hdp ▸ hfull)
  · rw [taskCount_move s _ hdp] at hd
    split at hd
    · rename_i hdc
      rw [hdc, Nat.sub_self] at hd
      exact absurd rfl hd
    · rename_i hdc
      rcases h d hd with hfull | hqueued | hempty
      · exact .inl hfull
      · exact .inr (.inl hqueued)
      · exact absurd (Option.some.inj (hempty.symm.trans hc)) hdc

theorem Housed.next (h : Housed s) (hk : Kept s) {e : Event Cpu Node} (he : Possible s e)
    (hmoves : e.strands = false) : Housed (next s e) := by
  obtain ⟨s', hs', -⟩ := hk.handle he
  rw [LineageA1000.Cpusets.next, hs', Option.getD_some]
  have hcall : ∀ {c file result}, Returns s c file result → result.map Prod.fst = some s' →
      Housed s' := by
    rintro c file _ ⟨t, r, rfl, hchange, -⟩ heq
    obtain rfl : t = s' := Option.some.inj heq
    exact h.call hchange
  have hcount : ∀ {c cs}, cs.taskCount = (s.cpusets c).taskCount →
      cs.isEmpty = (s.cpusets c).isEmpty → Housed (s.update c cs) := by
    intro c cs htasks hempty
    refine h.same (fun d hd => ?_) (fun _ hd => hd) rfl
    rw [update_apply] at hd ⊢
    split at hd
    · rename_i hdc
      rw [if_pos hdc, hdc]
      exact ⟨htasks ▸ hd, hempty⟩
    · rename_i hdc
      rw [if_neg hdc]
      exact ⟨hd, rfl⟩
  cases e with
  | create p clone =>
      obtain rfl := Option.some.inj hs'
      obtain ⟨cs, hf, heq⟩ := create_eq hk.toTree he clone
      rw [heq]
      refine h.same (fun d hd => ?_) (fun _ hd => hd) rfl
      change ((s.update s.nextId cs).cpusets d).taskCount ≠ 0 at hd
      change _ ∧ ((s.update s.nextId cs).cpusets d).isEmpty = _
      rw [update_apply] at hd ⊢
      split at hd
      · exact absurd hf.taskCount hd
      · rename_i hdn
        rw [if_neg hdn]
        exact ⟨hd, rfl⟩
  | remove c mem => exact h.remove hk hs'
  | writeU64 c type val mem => exact hcall (cpusetWriteU64_returns hk.toTree type val mem) hs'
  | writeS64 c type val mem => exact hcall (cpusetWriteS64_returns hk.toTree type val mem) hs'
  | writeResmask c type text mem =>
      exact hcall (cpusetWriteResmask_returns hk.toTree type text mem) hs'
  | tasks c n =>
      obtain rfl := Option.some.inj hs'
      refine h.same (fun d hd => ?_) (fun _ hd => hd) rfl
      rw [update_apply] at hd ⊢
      split at hd
      · rename_i hdc
        rw [if_pos hdc, hdc]
        exact ⟨he hd, rfl⟩
      · rename_i hdc
        rw [if_neg hdc]
        exact ⟨hd, rfl⟩
  | canAttach c refusal =>
      obtain rfl := Option.some.inj hs'
      rw [cpusetCanAttach]
      split
      · exact h
      split
      · exact h
      · exact hcount rfl rfl
  | cancelAttach c =>
      obtain rfl := Option.some.inj hs'
      exact hcount rfl rfl
  | attach src c n =>
      obtain rfl := Option.some.inj hs'
      exact h.attach src c n
  | setActive mask | setMemory mask =>
      obtain rfl := Option.some.inj hs'
      exact h
  | hotplugWork =>
      obtain rfl := Option.some.inj hs'
      obtain ⟨q, heq, -, hqueued, -⟩ := cpusetHotplugWorkfn_eq hk.toTree
      rw [heq]
      refine h.same (fun d hd => ?_) hqueued rfl
      change ((s.update topCpuset _).cpusets d).taskCount ≠ 0 at hd
      change _ ∧ ((s.update topCpuset _).cpusets d).isEmpty = _
      rw [update_apply] at hd ⊢
      split at hd
      · rename_i htop
        rw [if_pos htop, htop]
        refine ⟨hd, ?_⟩
        rw [Cpuset.isEmpty, Cpuset.isEmpty, decide_eq_false hk.active, decide_eq_false hk.memory,
          decide_eq_false hk.topCpus, decide_eq_false hk.topMems]
      · rename_i hdn
        rw [if_neg hdn]
        exact ⟨hd, rfl⟩
  | propagate =>
      cases hq : s.queued with
      | nil => exact absurd hq he.1
      | cons c rest =>
          rw [handle.eq_def] at hs'
          simp only [hq] at hs'
          obtain rfl := Option.some.inj hs'
          exact h.propagate hq he.2
  | transfer moved =>
      obtain ⟨c, hc⟩ := Option.ne_none_iff_exists'.1 he
      obtain rfl : moved = true := by simpa [Event.strands] using hmoves
      rw [handle.eq_def] at hs'
      simp only [hc] at hs'
      exact h.transfer hk hc hs'
  | hotplugDone mem =>
      obtain ⟨d, rfl⟩ := hotplugDone_eq hk.toTree hs'
      exact h

/-- No task is left behind: in every state of a run from the boot in which no work of a cpuset is
outstanding, a cpuset with tasks has CPUs and memory. -/
theorem housed_always {active : Finset Cpu} {memory : Finset Node} (hactive : active ≠ ∅)
    (hmemory : memory ≠ ∅) (levelMax : Int) (tasks : Nat) {events : List (Event Cpu Node)}
    (hevents : Run.EachStep next (fun s e => Possible s e ∧ e.strands = false)
      (booted active memory levelMax tasks) events) :
    Run.Always next (fun s => s.queued = [] → s.emptied = none →
        ∀ c, (s.cpusets c).taskCount ≠ 0 →
          (s.cpusets c).cpusAllowed ≠ ∅ ∧ (s.cpusets c).memsAllowed ≠ ∅)
      (booted active memory levelMax tasks) events := by
  have hstart : Housed (booted active memory levelMax tasks) := by
    intro c hc
    by_cases htop : c = topCpuset
    · refine .inl ?_
      simp [booted, htop, Cpuset.isEmpty, hactive, hmemory]
    · simp [booted, htop] at hc
  have halways : Run.Always next (fun s => Kept s ∧ Housed s)
      (booted active memory levelMax tasks) events :=
    Run.always_of_eachStep (fun _ _ hs he => ⟨hs.1.next he.1, hs.2.next hs.1 he.1 he.2⟩)
      ⟨booted_kept hactive hmemory _ _, hstart⟩ hevents
  refine halways.mono ?_
  rintro s ⟨-, hs⟩ hqueued hemptied c hc
  have hfull : (s.cpusets c).isEmpty = false := by
    refine (hs c hc).resolve_right ?_
    rw [hqueued, hemptied]
    rintro (hmem | hnone)
    · cases hmem
    · cases hnone
  rw [← not_or, ← isEmpty_iff, hfull]
  exact Bool.false_ne_true

theorem housed_always_screenCycle :
    Run.Always next (fun s => s.queued = [] → s.emptied = none →
        ∀ c, (s.cpusets c).taskCount ≠ 0 →
          (s.cpusets c).cpusAllowed ≠ ∅ ∧ (s.cpusets c).memsAllowed ≠ ∅)
      (booted {0, 1, 2, 3} {0} 4 100) screenCycle :=
  housed_always (by decide) (by decide) 4 100 (by decide)

end Tasks

end LineageA1000.Cpusets
