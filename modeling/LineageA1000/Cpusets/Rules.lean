import LineageA1000.Cpusets.Updates

/-!
# The rules between cpusets

What `validate_change` checks of a write is what holds between all cpusets at all times: exclusive
flags only below exclusive flags, and nothing in common with an exclusive sibling. `Rules` says so,
with the shape of the tree, and every change of a cpuset keeps it: a write because it was checked,
the rest because it takes CPUs and nodes away at most.

A write's effect is said once, as `Changed`, for all files.
-/

namespace LineageA1000.Cpusets

variable {Cpu Node : Type*}

/-- The tree and the rules for exclusive cpusets. -/
structure Rules (s : System Cpu Node) : Prop extends Tree s where
  up : ∀ c p, (s.cpusets c).parent = some p → p < c ∧ (p = topCpuset ∨ (s.cpusets p).parent ≠ none)
  cpuExclusive : ∀ c p, Up s c p → (s.cpusets c).isCpuExclusive ≤ (s.cpusets p).isCpuExclusive
  memExclusive : ∀ c p, Up s c p → (s.cpusets c).isMemExclusive ≤ (s.cpusets p).isMemExclusive
  cpusApart : ∀ c d p, Up s c p → Up s d p → c ≠ d → (s.cpusets c).isCpuExclusive = true →
    Disjoint (s.cpusets c).cpusAllowed (s.cpusets d).cpusAllowed
  memsApart : ∀ c d p, Up s c p → Up s d p → c ≠ d → (s.cpusets c).isMemExclusive = true →
    Disjoint (s.cpusets c).memsAllowed (s.cpusets d).memsAllowed

/-! ### Changes that leave flags and parents alone -/

/-- The cgroups are the same, with the same parents and flags. -/
structure SameTree (s s' : System Cpu Node) : Prop where
  created : s'.created = s.created
  nextId : s'.nextId = s.nextId
  number : s'.numberOfCpusets = s.numberOfCpusets
  parent : ∀ c, (s'.cpusets c).parent = (s.cpusets c).parent
  flags : ∀ c, (s'.cpusets c).flags = (s.cpusets c).flags

section SameTree

variable {s s' : System Cpu Node}

theorem SameTree.up (h : SameTree s s') {c p : CsId} : Up s' c p ↔ Up s c p := by
  rw [Up, Up, h.created, h.parent]

theorem SameTree.rules (h : SameTree s s') (hs : Rules s)
    (hcpus : ∀ c ∈ s.created, (s'.cpusets c).cpusAllowed ⊆ (s.cpusets c).cpusAllowed)
    (hmems : ∀ c ∈ s.created, (s'.cpusets c).memsAllowed ⊆ (s.cpusets c).memsAllowed) :
    Rules s' := by
  have hexcl : ∀ c, (s'.cpusets c).isCpuExclusive = (s.cpusets c).isCpuExclusive := fun c => by
    rw [Cpuset.isCpuExclusive, Cpuset.isCpuExclusive, h.flags]
  have hmexcl : ∀ c, (s'.cpusets c).isMemExclusive = (s.cpusets c).isMemExclusive := fun c => by
    rw [Cpuset.isMemExclusive, Cpuset.isMemExclusive, h.flags]
  constructor
  · constructor
    · rw [h.created]
      exact hs.nodup
    · rw [h.parent]
      exact hs.root
    · intro c hc
      rw [h.created] at hc ⊢
      rw [h.parent]
      exact hs.parent c hc
    · rw [h.nextId]
      exact hs.rootYoung
    · intro c hc
      rw [h.created] at hc
      rw [h.nextId]
      exact hs.young c hc
    · intro c
      rw [Cpuset.isOnline, h.flags, h.created]
      exact hs.online c
    · rw [h.number, h.created]
      exact hs.number
  · intro c p hp
    rw [h.parent] at hp ⊢
    exact hs.up c p hp
  · intro c p hup
    rw [hexcl, hexcl]
    exact hs.cpuExclusive c p (h.up.1 hup)
  · intro c p hup
    rw [hmexcl, hmexcl]
    exact hs.memExclusive c p (h.up.1 hup)
  · intro c d p hc hd hne hex
    rw [hexcl] at hex
    have hapart := hs.cpusApart c d p (h.up.1 hc) (h.up.1 hd) hne hex
    exact hapart.mono (hcpus c (h.up.1 hc).1) (hcpus d (h.up.1 hd).1)
  · intro c d p hc hd hne hex
    rw [hmexcl] at hex
    have hapart := hs.memsApart c d p (h.up.1 hc) (h.up.1 hd) hne hex
    exact hapart.mono (hmems c (h.up.1 hc).1) (hmems d (h.up.1 hd).1)

theorem SameTree.refl : SameTree s s := ⟨rfl, rfl, rfl, fun _ => rfl, fun _ => rfl⟩

theorem SameTree.trans {s'' : System Cpu Node} (h : SameTree s s') (h' : SameTree s' s'') :
    SameTree s s'' where
  created := h'.created.trans h.created
  nextId := h'.nextId.trans h.nextId
  number := h'.number.trans h.number
  parent c := (h'.parent c).trans (h.parent c)
  flags c := (h'.flags c).trans (h.flags c)

theorem sameTree_update {c : CsId} {cs : Cpuset Cpu Node} (hparent : cs.parent = (s.cpusets c).parent)
    (hflags : cs.flags = (s.cpusets c).flags) : SameTree s (s.update c cs) where
  created := rfl
  nextId := rfl
  number := rfl
  parent d := by
    by_cases h : d = c
    · rw [h, System.update_cpusets_self, hparent]
    · rw [System.update_cpusets_of_ne s cs h]
  flags d := by
    by_cases h : d = c
    · rw [h, System.update_cpusets_self, hflags]
    · rw [System.update_cpusets_of_ne s cs h]

end SameTree

/-! ### Writes -/

variable [DecidableEq Cpu] [DecidableEq Node]

theorem isCpusetSubset_iff {p q : Cpuset Cpu Node} :
    isCpusetSubset p q = true ↔ p.cpusAllowed ⊆ q.cpusAllowed ∧ p.memsAllowed ⊆ q.memsAllowed ∧
      p.isCpuExclusive ≤ q.isCpuExclusive ∧ p.isMemExclusive ≤ q.isMemExclusive := by
  simp [isCpusetSubset, and_assoc]

/-- What `validate_change` has checked when it finds nothing. -/
structure Valid (s : System Cpu Node) (c : CsId) (trial : Cpuset Cpu Node) : Prop where
  children : ∀ d ∈ s.onlineChildren c, isCpusetSubset (s.cpusets d) trial = true
  parent : c ≠ topCpuset → isCpusetSubset trial (s.cpusets (s.parentId c)) = true
  siblings : c ≠ topCpuset → ∀ d ∈ s.onlineChildren (s.parentId c), d ≠ c →
    clash trial (s.cpusets d) = false
  tasks : c ≠ topCpuset → (s.cpusets c).taskCount ≠ 0 ∨ (s.cpusets c).attachInProgress ≠ 0 →
    trial.isEmpty = false

theorem valid_of_validateChange {s : System Cpu Node} {c : CsId} {trial : Cpuset Cpu Node}
    (h : ¬ validateChange s c trial < 0) : Valid s c trial := by
  rw [validateChange] at h
  split at h
  · exact absurd (by decide) h
  rename_i hchildren
  have hkids : ∀ d ∈ s.onlineChildren c, isCpusetSubset (s.cpusets d) trial = true := by
    intro d hd
    by_contra hsub
    exact hchildren ⟨d, hd, Bool.not_eq_true _ ▸ hsub⟩
  split at h
  · rename_i htop
    exact ⟨hkids, fun hne => absurd htop hne, fun hne => absurd htop hne,
      fun hne => absurd htop hne⟩
  split at h
  · exact absurd (by decide) h
  rename_i hparent
  split at h
  · exact absurd (by decide) h
  rename_i hsiblings
  split at h
  · exact absurd (by decide) h
  rename_i htasks
  refine ⟨hkids, fun _ => ?_, fun _ d hd hne => ?_, fun _ hbusy => ?_⟩
  · exact Bool.not_eq_false _ ▸ hparent
  · by_contra hclash
    exact hsiblings ⟨d, hd, hne, Bool.not_eq_false _ ▸ hclash⟩
  · rw [Cpuset.isEmpty, Bool.or_eq_false_iff, decide_eq_false_iff_not, decide_eq_false_iff_not]
    exact not_or.1 fun hempty => htasks ⟨hbusy, hempty⟩

/-- A write of `trial` that was checked; `file` is the mask file that was written, if any. -/
structure Written (s : System Cpu Node) (c : CsId) (trial : Cpuset Cpu Node) (file : Option FileType) : Prop
    extends Valid s c trial where
  sameParent : trial.parent = (s.cpusets c).parent
  online : trial.isOnline = (s.cpusets c).isOnline
  sameTasks : trial.taskCount = (s.cpusets c).taskCount
  sameAttach : trial.attachInProgress = (s.cpusets c).attachInProgress
  cpus : trial.cpusAllowed = (s.cpusets c).cpusAllowed ∨
    file = some .cpulist ∧ c ≠ topCpuset ∧ trial.cpusAllowed ⊆ s.cpuActiveMask
  mems : trial.memsAllowed = (s.cpusets c).memsAllowed ∨
    file = some .memlist ∧ c ≠ topCpuset ∧ trial.memsAllowed ⊆ s.nodeMemory

/-- What a call can do to the system: nothing, a checked write, a new `relax_domain_level`, or the
switch for all memory pressure files; each may come with new domains for the scheduler. -/
inductive Changed (s : System Cpu Node) (c : CsId) (file : Option FileType) : System Cpu Node → Prop
  | unchanged : Changed s c file s
  | written (trial : Cpuset Cpu Node) (d : SchedDomains Cpu) (h : Written s c trial file) :
      Changed s c file ((s.update c trial).setDomains d)
  | relaxed (level : Int) (d : SchedDomains Cpu) :
      Changed s c file
        ((s.update c { s.cpusets c with relaxDomainLevel := level }).setDomains d)
  | pressure (on : Bool) : Changed s c file { s with memoryPressureEnabled := on }

/-- The call returns, it changes what it may change, and nothing when it fails. -/
def Returns (s : System Cpu Node) (c : CsId) (file : Option FileType)
    (result : Option (System Cpu Node × Int)) : Prop :=
  ∃ s' r, result = some (s', r) ∧ Changed s c file s' ∧ (r ≠ 0 → s' = s)

theorem subset_of_parseMask {α : Type*} [DecidableEq α] {blank : Bool}
    {list : Except Int (Finset α)} {available mask : Finset α}
    (h : parseMask blank list available = .ok mask) : mask ⊆ available := by
  cases blank with
  | true =>
      obtain rfl : ∅ = mask := Except.ok.inj h
      exact Finset.empty_subset available
  | false =>
      cases list with
      | error err => cases h
      | ok parsed =>
          have hsub : parsed ⊆ available ∧ parsed = mask := by
            simpa [parseMask, ite_eq_ok_of_error] using h
          exact hsub.2 ▸ hsub.1

section Calls

variable {s : System Cpu Node} {c : CsId} {file : Option FileType}

theorem returns_unchanged (r : Int) : Returns s c file (some (s, r)) :=
  ⟨s, r, rfl, .unchanged, fun _ => rfl⟩

theorem returns_written {trial : Cpuset Cpu Node} (h : Written s c trial file) :
    Returns s c file (some (s.update c trial, 0)) :=
  ⟨_, 0, rfl, .written trial s.domains h, fun hr => absurd rfl hr⟩

omit [DecidableEq Node] in
/-- `rebuild_sched_domains_locked` returns and changes the domains at most. -/
theorem rebuild_returns (h : Tree s) (alloc : Alloc) :
    ∃ d, rebuildSchedDomainsLocked s alloc = some (s.setDomains d) := by
  rw [rebuildSchedDomainsLocked]
  split
  · exact ⟨s.domains, rfl⟩
  · obtain ⟨d, hd, -⟩ := generateSchedDomains_spec h alloc
    exact ⟨d, by rw [hd, Option.map_some]⟩

omit [DecidableEq Cpu] [DecidableEq Node] in
theorem Tree.update (h : Tree s) {cs : Cpuset Cpu Node}
    (hparent : cs.parent = (s.cpusets c).parent) (honline : cs.isOnline = (s.cpusets c).isOnline) :
    Tree (s.update c cs) := by
  have hsame : ∀ d, ((s.update c cs).cpusets d).parent = (s.cpusets d).parent ∧
      ((s.update c cs).cpusets d).isOnline = (s.cpusets d).isOnline := by
    intro d
    by_cases hd : d = c
    · rw [hd, System.update_cpusets_self]
      exact ⟨hparent, honline⟩
    · rw [System.update_cpusets_of_ne s cs hd]
      exact ⟨rfl, rfl⟩
  constructor
  · exact h.nodup
  · rw [(hsame topCpuset).1]
    exact h.root
  · intro d hd
    rw [(hsame d).1]
    exact h.parent d hd
  · exact h.rootYoung
  · exact h.young
  · intro d
    rw [(hsame d).2]
    exact h.online d
  · exact h.number

theorem returns_rebuilt (h : Tree s) {trial : Cpuset Cpu Node} (hw : Written s c trial file)
    (alloc : Alloc) :
    Returns s c file
      ((rebuildSchedDomainsLocked (s.update c trial) alloc).map fun s' => (s', 0)) := by
  obtain ⟨d, hd⟩ := rebuild_returns (h.update hw.sameParent hw.online) alloc
  refine ⟨_, 0, by rw [hd, Option.map_some], .written trial d hw, fun hr => absurd rfl hr⟩

theorem updateCpumask_returns (h : Tree s) (text : MaskText Cpu Node) (mem : Memory) :
    Returns s c (some .cpulist) (updateCpumask s c text mem) := by
  rw [updateCpumask]
  split
  · exact returns_unchanged _
  rename_i htop
  split
  · exact returns_unchanged _
  rename_i mask hmask
  have havailable : mask ⊆ s.cpuActiveMask := subset_of_parseMask hmask
  dsimp only
  split
  · exact returns_unchanged _
  rename_i hvalid
  have hw : Written s c { s.cpusets c with cpusAllowed := mask } (some .cpulist) :=
    ⟨valid_of_validateChange hvalid, rfl, rfl, rfl, rfl, .inr ⟨rfl, htop, havailable⟩, .inl rfl⟩
  split
  · exact returns_unchanged _
  split
  · exact returns_unchanged _
  split
  · exact returns_rebuilt h hw _
  · exact returns_written hw

theorem updateNodemask_returns (text : MaskText Cpu Node) (mem : Memory) :
    Returns s c (some .memlist) (some (updateNodemask s c text mem)) := by
  rw [updateNodemask]
  split
  · exact returns_unchanged _
  split
  · exact returns_unchanged _
  rename_i htop
  split
  · exact returns_unchanged _
  rename_i mask hmask
  have havailable : mask ⊆ s.nodeMemory := subset_of_parseMask hmask
  dsimp only
  split
  · exact returns_unchanged _
  split
  · exact returns_unchanged _
  rename_i hvalid
  split
  · exact returns_unchanged _
  · refine returns_written ⟨valid_of_validateChange hvalid, rfl, rfl, rfl, rfl, .inl rfl, ?_⟩
    exact .inr ⟨rfl, htop, havailable⟩

theorem updateFlag_returns (h : Tree s) {bit : Flagbit} (hbit : bit ≠ .online) (on : Bool)
    (mem : Memory) : Returns s c none (updateFlag s bit c on mem) := by
  rw [updateFlag]
  split
  · exact returns_unchanged _
  dsimp only
  split
  · exact returns_unchanged _
  rename_i hvalid
  have hw : Written s c ((s.cpusets c).setFlag bit on) none :=
    ⟨valid_of_validateChange hvalid, rfl, Cpuset.setFlag_flags_of_ne _ on hbit.symm, rfl, rfl,
      .inl rfl, .inl rfl⟩
  split
  · exact returns_unchanged _
  split
  · exact returns_rebuilt h hw _
  · exact returns_written hw

theorem updateRelaxDomainLevel_returns (h : Tree s) (val : Int) (mem : Memory) :
    Returns s c none (updateRelaxDomainLevel s c val mem) := by
  rw [updateRelaxDomainLevel]
  split
  · exact returns_unchanged _
  split
  · exact returns_unchanged _
  dsimp only
  split
  · have htree : Tree (s.update c { s.cpusets c with relaxDomainLevel := val }) := h.update rfl rfl
    obtain ⟨d, hd⟩ := rebuild_returns htree mem.domains
    exact ⟨_, 0, by rw [hd, Option.map_some], .relaxed val d, fun hr => absurd rfl hr⟩
  · exact ⟨_, 0, rfl, .relaxed val s.domains, fun hr => absurd rfl hr⟩

theorem cpusetWriteU64_returns (h : Tree s) (type : FileType) (val : Nat) (mem : Memory) :
    Returns s c none (cpusetWriteU64 s c type val mem) := by
  rw [cpusetWriteU64]
  split
  · exact returns_unchanged _
  cases type with
  | memoryPressureEnabled => exact ⟨_, 0, rfl, .pressure _, fun hr => absurd rfl hr⟩
  | memoryPressure | cpulist | memlist | schedRelaxDomainLevel => exact returns_unchanged _
  | memoryMigrate | cpuExclusive | memExclusive | memHardwall | schedLoadBalance | spreadPage
  | spreadSlab => exact updateFlag_returns h (by decide) _ mem

theorem cpusetWriteS64_returns (h : Tree s) (type : FileType) (val : Int) (mem : Memory) :
    Returns s c none (cpusetWriteS64 s c type val mem) := by
  rw [cpusetWriteS64.eq_def]
  split
  · exact returns_unchanged _
  cases type with
  | schedRelaxDomainLevel => exact updateRelaxDomainLevel_returns h val mem
  | _ => exact returns_unchanged _

theorem cpusetWriteResmask_returns (h : Tree s) (type : FileType) (text : MaskText Cpu Node)
    (mem : Memory) : Returns s c (some type) (cpusetWriteResmask s c type text mem) := by
  rw [cpusetWriteResmask.eq_def]
  split
  · exact returns_unchanged _
  split
  · exact returns_unchanged _
  cases type with
  | cpulist => exact updateCpumask_returns h text mem
  | memlist => exact updateNodemask_returns text mem
  | _ => exact returns_unchanged _

end Calls

/-! ### The rules survive -/

section Survive

variable {s : System Cpu Node} {c : CsId} {file : Option FileType}

omit [DecidableEq Cpu] [DecidableEq Node] in
theorem Rules.setDomains (h : Rules s) (d : SchedDomains Cpu) : Rules (s.setDomains d) :=
  SameTree.rules (s := s) ⟨rfl, rfl, rfl, fun _ => rfl, fun _ => rfl⟩ h (fun _ _ => subset_rfl)
    (fun _ _ => subset_rfl)

theorem cpus_disjoint_of_clash {p q : Cpuset Cpu Node} (h : clash p q = false)
    (hex : p.isCpuExclusive = true ∨ q.isCpuExclusive = true) :
    Disjoint p.cpusAllowed q.cpusAllowed := by
  rw [clash, Bool.or_eq_false_iff, Bool.and_eq_false_iff, Bool.or_eq_false_iff] at h
  rcases h.1 with hflags | hmasks
  · rcases hex with hp | hq
    · exact absurd (hflags.1.symm.trans hp) (by decide)
    · exact absurd (hflags.2.symm.trans hq) (by decide)
  · rw [Bool.not_eq_false'] at hmasks
    exact of_decide_eq_true hmasks

theorem mems_disjoint_of_clash {p q : Cpuset Cpu Node} (h : clash p q = false)
    (hex : p.isMemExclusive = true ∨ q.isMemExclusive = true) :
    Disjoint p.memsAllowed q.memsAllowed := by
  rw [clash, Bool.or_eq_false_iff] at h
  rcases Bool.and_eq_false_iff.1 h.2 with hflags | hmasks
  · rw [Bool.or_eq_false_iff] at hflags
    rcases hex with hp | hq
    · exact absurd (hflags.1.symm.trans hp) (by decide)
    · exact absurd (hflags.2.symm.trans hq) (by decide)
  · rw [Bool.not_eq_false'] at hmasks
    exact of_decide_eq_true hmasks

theorem Written.rules {trial : Cpuset Cpu Node} (hw : Written s c trial file) (h : Rules s) :
    Rules (s.update c trial) := by
  have htree : Tree (s.update c trial) := h.toTree.update hw.sameParent hw.online
  have hparent : ∀ d, ((s.update c trial).cpusets d).parent = (s.cpusets d).parent := by
    intro d
    by_cases hd : d = c
    · rw [hd, System.update_cpusets_self, hw.sameParent]
    · rw [System.update_cpusets_of_ne s trial hd]
  have hup : ∀ {d p}, Up (s.update c trial) d p → Up s d p := by
    rintro d p ⟨hd, hp⟩
    exact ⟨hd, (hparent d).symm.trans hp⟩
  -- The rules against the parent and the children.
  have hsub : ∀ d p, Up s d p → d = c ∨ p = c →
      isCpusetSubset ((s.update c trial).cpusets d) ((s.update c trial).cpusets p) = true := by
    rintro d p hdp (rfl | rfl)
    · have hne : p ≠ d := (h.lt hdp).ne
      rw [System.update_cpusets_self, System.update_cpusets_of_ne s trial hne]
      have hvalid := hw.parent (h.ne_top hdp.1)
      rwa [Tree.parentId hdp] at hvalid
    · have hne : d ≠ p := (h.lt hdp).ne'
      rw [System.update_cpusets_self, System.update_cpusets_of_ne s trial hne]
      exact hw.children d (h.mem_onlineChildren.2 hdp)
  -- The rules against the siblings.
  have hclash : ∀ d p, Up s c p → Up s d p → d ≠ c → clash trial (s.cpusets d) = false := by
    intro d p hc hd hne
    refine hw.siblings (h.ne_top hc.1) d ?_ hne
    rw [Tree.parentId hc]
    exact h.mem_onlineChildren.2 hd
  refine ⟨htree, fun d p hp => ?_, fun d p hdp => ?_, fun d p hdp => ?_, ?_, ?_⟩
  · rw [hparent] at hp ⊢
    exact h.up d p hp
  · by_cases hcase : d = c ∨ p = c
    · exact (isCpusetSubset_iff.1 (hsub d p (hup hdp) hcase)).2.2.1
    · rw [not_or] at hcase
      rw [System.update_cpusets_of_ne s trial hcase.1, System.update_cpusets_of_ne s trial hcase.2]
      exact h.cpuExclusive d p (hup hdp)
  · by_cases hcase : d = c ∨ p = c
    · exact (isCpusetSubset_iff.1 (hsub d p (hup hdp) hcase)).2.2.2
    · rw [not_or] at hcase
      rw [System.update_cpusets_of_ne s trial hcase.1, System.update_cpusets_of_ne s trial hcase.2]
      exact h.memExclusive d p (hup hdp)
  · intro d e p hd he hne hex
    by_cases hdc : d = c
    · subst hdc
      rw [System.update_cpusets_self] at hex ⊢
      rw [System.update_cpusets_of_ne s trial hne.symm]
      exact cpus_disjoint_of_clash (hclash e p (hup hd) (hup he) hne.symm) (.inl hex)
    · rw [System.update_cpusets_of_ne s trial hdc] at hex ⊢
      by_cases hec : e = c
      · subst hec
        rw [System.update_cpusets_self]
        exact (cpus_disjoint_of_clash (hclash d p (hup he) (hup hd) hdc) (.inr hex)).symm
      · rw [System.update_cpusets_of_ne s trial hec]
        exact h.cpusApart d e p (hup hd) (hup he) hne hex
  · intro d e p hd he hne hex
    by_cases hdc : d = c
    · subst hdc
      rw [System.update_cpusets_self] at hex ⊢
      rw [System.update_cpusets_of_ne s trial hne.symm]
      exact mems_disjoint_of_clash (hclash e p (hup hd) (hup he) hne.symm) (.inl hex)
    · rw [System.update_cpusets_of_ne s trial hdc] at hex ⊢
      by_cases hec : e = c
      · subst hec
        rw [System.update_cpusets_self]
        exact (mems_disjoint_of_clash (hclash d p (hup he) (hup hd) hdc) (.inr hex)).symm
      · rw [System.update_cpusets_of_ne s trial hec]
        exact h.memsApart d e p (hup hd) (hup he) hne hex

theorem Changed.rules {s' : System Cpu Node} (hchange : Changed s c file s') (h : Rules s) :
    Rules s' := by
  cases hchange with
  | unchanged => exact h
  | written trial d hw => exact (hw.rules h).setDomains d
  | relaxed level d =>
      have hsame : SameTree s (s.update c { s.cpusets c with relaxDomainLevel := level }) :=
        sameTree_update rfl rfl
      refine Rules.setDomains (hsame.rules h ?_ ?_) d
      all_goals
        intro e _
        by_cases he : e = c
        · rw [he, System.update_cpusets_self]
        · rw [System.update_cpusets_of_ne s _ he]
  | pressure on =>
      exact SameTree.rules (s := s) ⟨rfl, rfl, rfl, fun _ => rfl, fun _ => rfl⟩ h
        (fun _ _ => subset_rfl) (fun _ _ => subset_rfl)

end Survive

end LineageA1000.Cpusets
