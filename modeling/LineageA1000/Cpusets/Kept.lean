import LineageA1000.Cpusets.Rules
import LineageA1000.Lib.Run
import Mathlib.Algebra.GroupWithZero.Nat

/-!
# The rules hold at all times

The rules between cpusets survive every event, in any order, hotplug in the midst of writes included,
and no event runs into the `BUG_ON` of `generate_sched_domains`, a merge that does not end, or a walk
past the root.
-/

namespace LineageA1000.Cpusets

variable {Cpu Node : Type*}

/-- The root, or a cpuset that was made at some time. -/
def Made (s : System Cpu Node) (c : CsId) : Prop := c = topCpuset ∨ (s.cpusets c).parent ≠ none

/-- The rules, a CPU and a memory node everywhere it matters, and work for real cpusets only. -/
structure Kept (s : System Cpu Node) : Prop extends Rules s where
  active : s.cpuActiveMask ≠ ∅
  memory : s.nodeMemory ≠ ∅
  topCpus : (s.cpusets topCpuset).cpusAllowed ≠ ∅
  topMems : (s.cpusets topCpuset).memsAllowed ≠ ∅
  queued : ∀ c ∈ s.queued, Made s c
  emptied : ∀ c, s.emptied = some c → (s.cpusets c).parent ≠ none
  attach : ∀ c, (s.cpusets c).attachInProgress ≠ 0 → Made s c

theorem Kept.made_of_created {s : System Cpu Node} (h : Kept s) {c : CsId} (hc : c ∈ s.created) :
    (s.cpusets c).parent ≠ none := by
  obtain ⟨p, hp, -⟩ := h.parent c hc
  rw [hp]
  exact Option.some_ne_none p

/-! ### What each event does -/

section Effects

variable {s : System Cpu Node}

theorem update_apply (s : System Cpu Node) (c : CsId) (cs : Cpuset Cpu Node) (d : CsId) :
    (s.update c cs).cpusets d = if d = c then cs else s.cpusets d :=
  Function.update_apply s.cpusets c cs d

variable [DecidableEq Cpu] [DecidableEq Node]

omit [DecidableEq Cpu] [DecidableEq Node]

/-- A new cpuset has no exclusive flag and no tasks, and no CPUs and memory unless it is a clone of
its parent beside no exclusive cpuset. -/
structure Fresh (s : System Cpu Node) (p : CsId) (clone : Bool) (cs : Cpuset Cpu Node) : Prop where
  parent : cs.parent = some p
  online : cs.isOnline = true
  cpuExclusive : cs.isCpuExclusive = false
  memExclusive : cs.isMemExclusive = false
  taskCount : cs.taskCount = 0
  attachInProgress : cs.attachInProgress = 0
  masks : cs.cpusAllowed = ∅ ∧ cs.memsAllowed = ∅ ∨
    clone = true ∧ cs.cpusAllowed = (s.cpusets p).cpusAllowed ∧
      cs.memsAllowed = (s.cpusets p).memsAllowed ∧
      ∀ d, Up s d p → (s.cpusets d).isCpuExclusive = false ∧ (s.cpusets d).isMemExclusive = false

theorem onlined_flags (parent cs : Cpuset Cpu Node) (cloned : Bool) {bit : Flagbit}
    (hpage : bit ≠ .spreadPage) (hslab : bit ≠ .spreadSlab) :
    (onlined parent cs cloned).flags bit = (cs.setFlag .online true).flags bit := by
  simp only [onlined]
  split <;> split <;> split <;>
    simp only [Cpuset.setFlag_flags_of_ne _ true hpage, Cpuset.setFlag_flags_of_ne _ true hslab]

theorem onlined_spec (parent : Cpuset Cpu Node) (p : CsId) (cloned : Bool) :
    let cs := onlined parent (cpusetCssAlloc p) cloned
    cs.parent = some p ∧ cs.taskCount = 0 ∧ cs.attachInProgress = 0 ∧
      cs.cpusAllowed = (if cloned then parent.cpusAllowed else ∅) ∧
      cs.memsAllowed = (if cloned then parent.memsAllowed else ∅) := by
  simp only [onlined]
  split <;> split <;> split <;> exact ⟨rfl, rfl, rfl, rfl, rfl⟩

theorem create_eq (h : Tree s) {p : CsId} (hp : p = topCpuset ∨ p ∈ s.created) (clone : Bool) :
    ∃ cs, Fresh s p clone cs ∧
      create s p clone =
        { s.update s.nextId cs with
          created := s.created ++ [s.nextId]
          nextId := s.nextId + 1
          numberOfCpusets := s.numberOfCpusets + 1 } := by
  have hne : p ≠ s.nextId := by
    rcases hp with rfl | hp
    · exact h.rootYoung.ne
    · exact (h.young p hp).ne
  obtain ⟨base, hbase⟩ : ∃ base : System Cpu Node, base =
      { s.update s.nextId (cpusetCssAlloc p) with
        created := s.created ++ [s.nextId]
        nextId := s.nextId + 1 } := ⟨_, rfl⟩
  have hself : base.cpusets s.nextId = cpusetCssAlloc p := by
    rw [hbase]
    exact Function.update_self ..
  have hother : ∀ d, d ≠ s.nextId → base.cpusets d = s.cpusets d := by
    intro d hd
    rw [hbase]
    exact Function.update_of_ne hd ..
  have hparent : base.parentId s.nextId = p := by
    rw [System.parentId, hself]
    rfl
  have hkids : ∀ d, Up s d p → d ∈ base.onlineChildren p := by
    intro d hd
    have hdne : d ≠ s.nextId := (h.young d hd.1).ne
    have hmem : d ∈ base.created := by
      rw [hbase]
      exact List.mem_append_left _ hd.1
    rw [System.onlineChildren, List.mem_filter, System.children, List.mem_filter, hother d hdne]
    exact ⟨⟨hmem, decide_eq_true hd.2⟩, (h.online d).2 (.inr hd.1)⟩
  have hflags : ∀ cloned {bit : Flagbit}, bit ≠ .spreadPage → bit ≠ .spreadSlab →
      (onlined (s.cpusets p) (cpusetCssAlloc p) cloned).flags bit =
        ((cpusetCssAlloc p).setFlag .online true).flags bit :=
    fun cloned _ hpage hslab => onlined_flags _ _ cloned hpage hslab
  obtain ⟨cloned, hcloned⟩ : ∃ cloned, cloned = (clone && decide (∀ d ∈ base.onlineChildren p,
    ¬ ((base.cpusets d).isMemExclusive ∨ (base.cpusets d).isCpuExclusive))) := ⟨_, rfl⟩
  obtain ⟨hsparent, htasks, hattach, hcpus, hmems⟩ := onlined_spec (s.cpusets p) p cloned
  refine ⟨onlined (s.cpusets p) (cpusetCssAlloc p) cloned,
    ⟨hsparent, ?_, ?_, ?_, htasks, hattach, ?_⟩, ?_⟩
  · exact (hflags cloned (by decide) (by decide)).trans (Cpuset.setFlag_flags_self ..)
  · exact hflags cloned (by decide) (by decide)
  · exact hflags cloned (by decide) (by decide)
  · cases hcase : cloned with
    | false =>
        rw [hcase] at hcpus hmems
        exact .inl ⟨hcpus, hmems⟩
    | true =>
        rw [hcase] at hcpus hmems hcloned
        obtain ⟨hclone, halone⟩ := Bool.and_eq_true_iff.1 hcloned.symm
        refine .inr ⟨hclone, hcpus, hmems, fun d hd => ?_⟩
        have hd' := of_decide_eq_true halone d (hkids d hd)
        rw [hother d (h.young d hd.1).ne, not_or, Bool.not_eq_true, Bool.not_eq_true] at hd'
        exact ⟨hd'.2, hd'.1⟩
  · have honline : create s p clone = cpusetCssOnline base s.nextId clone := by rw [hbase, create]
    rw [honline, cpusetCssOnline, hparent, hself, hother p hne, ← hcloned, System.update, hbase]
    simp only [System.update, Function.update_idem]

/-- What a call leaves alone. -/
structure Framed (s s' : System Cpu Node) : Prop where
  created : s'.created = s.created
  nextId : s'.nextId = s.nextId
  queued : s'.queued = s.queued
  emptied : s'.emptied = s.emptied
  hotplug : s'.hotplug = s.hotplug
  active : s'.cpuActiveMask = s.cpuActiveMask
  memory : s'.nodeMemory = s.nodeMemory
  parent : ∀ d, (s'.cpusets d).parent = (s.cpusets d).parent
  attach : ∀ d, (s'.cpusets d).attachInProgress = (s.cpusets d).attachInProgress
  tasks : ∀ d, (s'.cpusets d).taskCount = (s.cpusets d).taskCount
  topCpus : (s'.cpusets topCpuset).cpusAllowed = (s.cpusets topCpuset).cpusAllowed
  topMems : (s'.cpusets topCpuset).memsAllowed = (s.cpusets topCpuset).memsAllowed

theorem Framed.made {s' : System Cpu Node} (h : Framed s s') {c : CsId} : Made s' c ↔ Made s c := by
  rw [Made, Made, h.parent]

theorem framed_refl : Framed s s :=
  ⟨rfl, rfl, rfl, rfl, rfl, rfl, rfl, fun _ => rfl, fun _ => rfl, fun _ => rfl, rfl, rfl⟩

theorem framed_update {c : CsId} {cs : Cpuset Cpu Node} (hparent : cs.parent = (s.cpusets c).parent)
    (hattach : cs.attachInProgress = (s.cpusets c).attachInProgress)
    (htasks : cs.taskCount = (s.cpusets c).taskCount)
    (hcpus : c = topCpuset → cs.cpusAllowed = (s.cpusets c).cpusAllowed)
    (hmems : c = topCpuset → cs.memsAllowed = (s.cpusets c).memsAllowed) (d : SchedDomains Cpu) :
    Framed s ((s.update c cs).setDomains d) := by
  refine ⟨rfl, rfl, rfl, rfl, rfl, rfl, rfl, ?_, ?_, ?_, ?_, ?_⟩
  · intro e
    rw [System.setDomains_cpusets, update_apply]
    split
    · rename_i he
      rw [he, hparent]
    · rfl
  · intro e
    rw [System.setDomains_cpusets, update_apply]
    split
    · rename_i he
      rw [he, hattach]
    · rfl
  · intro e
    rw [System.setDomains_cpusets, update_apply]
    split
    · rename_i he
      rw [he, htasks]
    · rfl
  · rw [System.setDomains_cpusets, update_apply]
    split
    · rename_i he
      rw [hcpus he.symm, he]
    · rfl
  · rw [System.setDomains_cpusets, update_apply]
    split
    · rename_i he
      rw [hmems he.symm, he]
    · rfl

variable [DecidableEq Cpu] [DecidableEq Node]

theorem Changed.framed {s' : System Cpu Node} {c : CsId} {file : Option FileType}
    (h : Changed s c file s') : Framed s s' := by
  cases h with
  | unchanged => exact framed_refl
  | written trial d hw =>
      refine framed_update hw.sameParent hw.sameAttach hw.sameTasks ?_ ?_ d
      · exact fun htop => hw.cpus.resolve_right fun hmask => hmask.2.1 htop
      · exact fun htop => hw.mems.resolve_right fun hmask => hmask.2.1 htop
  | relaxed level d =>
      refine framed_update ?_ ?_ ?_ ?_ ?_ d
      · rfl
      · rfl
      · rfl
      · exact fun _ => rfl
      · exact fun _ => rfl
  | pressure on =>
      exact ⟨rfl, rfl, rfl, rfl, rfl, rfl, rfl, fun _ => rfl, fun _ => rfl, fun _ => rfl, rfl, rfl⟩

/-- A removal is a write of the load balance flag, which may fail, and the unlinking. -/
theorem remove_eq (h : Tree s) (c : CsId) (mem : Memory) :
    ∃ t, Changed s c none t ∧ remove s c mem = some
      { t.update c ((t.cpusets c).setFlag .online false) with
        numberOfCpusets := t.numberOfCpusets - 1
        created := t.created.erase c } := by
  rw [remove, cpusetCssOffline]
  split
  · obtain ⟨t, r, ht, hchange, -⟩ :=
      updateFlag_returns (c := c) h (by decide : Flagbit.schedLoadBalance ≠ .online) false mem
    refine ⟨t, hchange, ?_⟩
    rw [ht]
    rfl
  · exact ⟨s, .unchanged, rfl⟩

omit [DecidableEq Cpu] [DecidableEq Node] in
/-- `foldl` of `schedule_cpuset_propagate_hotplug` queues the whole list. -/
theorem foldl_schedule (l : List CsId) (s : System Cpu Node) :
    ∃ q, l.foldl scheduleCpusetPropagateHotplug s = { s with queued := q } ∧
      ∀ c, c ∈ q ↔ c ∈ s.queued ∨ c ∈ l := by
  induction l generalizing s with
  | nil => exact ⟨s.queued, rfl, fun c => by simp⟩
  | cons a l ih =>
      rw [List.foldl_cons, scheduleCpusetPropagateHotplug]
      split
      · rename_i ha
        obtain ⟨q, hq, hmem⟩ := ih s
        refine ⟨q, hq, fun c => ?_⟩
        rw [hmem, List.mem_cons]
        constructor
        · rintro (hc | hc)
          · exact .inl hc
          · exact .inr (.inr hc)
        · rintro (hc | rfl | hc)
          · exact .inl hc
          · exact .inl ha
          · exact .inr hc
      · obtain ⟨q, hq, hmem⟩ := ih { s with queued := s.queued ++ [a] }
        refine ⟨q, hq, fun c => ?_⟩
        rw [hmem, List.mem_append, List.mem_singleton, List.mem_cons, or_assoc]

/-- The root's masks become those of the machine, and when something went away the work of every
cgroup is queued. -/
theorem cpusetHotplugWorkfn_eq (h : Tree s) :
    ∃ q, cpusetHotplugWorkfn s =
        { s.update topCpuset
            { s.cpusets topCpuset with
              cpusAllowed := s.cpuActiveMask
              memsAllowed := s.nodeMemory } with
          hotplug := ⟨false, true, decide ((s.cpusets topCpuset).cpusAllowed ≠ s.cpuActiveMask)⟩
          queued := q } ∧
      (∀ c ∈ q, c ∈ s.queued ∨ c ∈ s.created) ∧ (∀ c ∈ s.queued, c ∈ q) ∧
      (((s.cpusets topCpuset).cpusAllowed ⊆ s.cpuActiveMask ∧
        (s.cpusets topCpuset).memsAllowed ⊆ s.nodeMemory) ∨ ∀ c ∈ s.created, c ∈ q) := by
  obtain ⟨synced, hsynced⟩ : ∃ synced, synced =
      { s.update topCpuset
          { s.cpusets topCpuset with
            cpusAllowed := s.cpuActiveMask
            memsAllowed := s.nodeMemory } with
        hotplug := ⟨false, true, decide ((s.cpusets topCpuset).cpusAllowed ≠ s.cpuActiveMask)⟩ } :=
    ⟨_, rfl⟩
  have htree : Tree synced := by
    have hupdate : Tree (s.update topCpuset
        { s.cpusets topCpuset with
          cpusAllowed := s.cpuActiveMask
          memsAllowed := s.nodeMemory }) := h.update rfl rfl
    rw [hsynced]
    exact ⟨hupdate.nodup, hupdate.root, hupdate.parent, hupdate.rootYoung, hupdate.young,
      hupdate.online, hupdate.number⟩
  have hcreated : synced.created = s.created := by rw [hsynced]; rfl
  have hqueued : synced.queued = s.queued := by rw [hsynced]; rfl
  have hwork : cpusetHotplugWorkfn s =
      if ¬ (s.cpusets topCpuset).cpusAllowed ⊆ s.cpuActiveMask ∨
          ¬ (s.cpusets topCpuset).memsAllowed ⊆ s.nodeMemory then
        ((synced.descendants (fun _ => true) topCpuset).filter fun c =>
          (synced.cpusets c).isOnline).foldl scheduleCpusetPropagateHotplug synced
      else synced := by rw [hsynced, cpusetHotplugWorkfn]
  rw [hwork]
  split
  · obtain ⟨q, hq, hmem⟩ := foldl_schedule
      ((synced.descendants (fun _ => true) topCpuset).filter fun c =>
        (synced.cpusets c).isOnline) synced
    refine ⟨q, by rw [hq, hsynced], fun c hc => ?_, fun c hc => ?_, .inr fun c hc => ?_⟩
    · rcases (hmem c).1 hc with hc | hc
      · exact .inl (hqueued ▸ hc)
      · exact .inr (hcreated ▸ mem_created_of_mem_walkPre (List.mem_of_mem_filter hc))
    · exact (hmem c).2 (.inl (hqueued.symm ▸ hc))
    · rw [← hcreated] at hc
      refine (hmem c).2 (.inr (List.mem_filter.2 ⟨?_, (htree.online c).2 (.inr hc)⟩))
      have hwalk : c ∈ synced.descendants (fun _ => true) topCpuset ∨ _ :=
        visited_or_skipped htree hc
      rcases hwalk with hvisited | ⟨a, -, hskip, -⟩
      · exact hvisited
      · cases hskip
  · rename_i hnone
    rw [not_or, not_not, not_not] at hnone
    exact ⟨s.queued, by rw [hsynced]; rfl, fun c hc => .inl hc, fun c hc => hc, .inl hnone⟩

end Effects

/-! ### The rules survive every event -/

section Rules

variable {s : System Cpu Node}

theorem Fresh.rules {p : CsId} {clone : Bool} {cs : Cpuset Cpu Node} (hf : Fresh s p clone cs)
    (h : Rules s) (hp : p = topCpuset ∨ p ∈ s.created) :
    Rules
      { s.update s.nextId cs with
        created := s.created ++ [s.nextId]
        nextId := s.nextId + 1
        numberOfCpusets := s.numberOfCpusets + 1 } := by
  have hpn : p < s.nextId := by
    rcases hp with rfl | hp
    · exact h.rootYoung
    · exact h.young p hp
  have hold : ∀ {d}, d < s.nextId → (s.update s.nextId cs).cpusets d = s.cpusets d := fun hd =>
    System.update_cpusets_of_ne s cs hd.ne
  have hnew : (s.update s.nextId cs).cpusets s.nextId = cs := System.update_cpusets_self s _ cs
  -- A step up is the step of the new cpuset or an old one.
  have hup : ∀ {d q}, d ∈ s.created ++ [s.nextId] →
      ((s.update s.nextId cs).cpusets d).parent = some q →
      d = s.nextId ∧ q = p ∨ d < s.nextId ∧ Up s d q := by
    intro d q hd hq
    rcases List.mem_append.1 hd with hd | hd
    · have hlt := h.young d hd
      rw [hold hlt] at hq
      exact .inr ⟨hlt, hd, hq⟩
    · obtain rfl := List.mem_singleton.1 hd
      rw [hnew, hf.parent] at hq
      exact .inl ⟨rfl, (Option.some.inj hq).symm⟩
  have hlt : ∀ {d q}, Up s d q → q < s.nextId := fun hdq => (h.lt hdq).trans (h.young _ hdq.1)
  refine ⟨⟨?_, ?_, ?_, ?_, ?_, ?_, ?_⟩, ?_, ?_, ?_, ?_, ?_⟩
  · refine List.Nodup.append h.nodup (List.nodup_singleton _) ?_
    rw [List.disjoint_singleton]
    exact fun hmem => lt_irrefl _ (h.young _ hmem)
  · rw [← h.root]
    exact congrArg Cpuset.parent (hold h.rootYoung)
  · intro d hd
    rcases List.mem_append.1 hd with hd | hd
    · obtain ⟨q, hq, hqlt, hlinked⟩ := h.parent d hd
      refine ⟨q, (congrArg Cpuset.parent (hold (h.young d hd))).trans hq, hqlt, ?_⟩
      exact hlinked.imp_right fun hmem => List.mem_append_left _ hmem
    · obtain rfl := List.mem_singleton.1 hd
      refine ⟨p, (congrArg Cpuset.parent hnew).trans hf.parent, hpn, ?_⟩
      exact hp.imp_right fun hmem => List.mem_append_left _ hmem
  · exact h.rootYoung.trans (Nat.lt_succ_self _)
  · intro d hd
    rcases List.mem_append.1 hd with hd | hd
    · exact (h.young d hd).trans (Nat.lt_succ_self _)
    · obtain rfl := List.mem_singleton.1 hd
      exact Nat.lt_succ_self _
  · intro d
    by_cases hd : d = s.nextId
    · subst hd
      change ((s.update s.nextId cs).cpusets s.nextId).isOnline = true ↔ _
      rw [hnew, hf.online]
      simp
    · change ((s.update s.nextId cs).cpusets d).isOnline = true ↔ _
      rw [System.update_cpusets_of_ne s cs hd, h.online d, List.mem_append, List.mem_singleton,
        or_iff_left (b := d = s.nextId) hd]
  · change s.numberOfCpusets + 1 = ((s.created ++ [s.nextId]).length : Int) + 1
    rw [h.number, List.length_append, List.length_singleton]
    omega
  · intro d q hq
    change ((s.update s.nextId cs).cpusets d).parent = some q at hq
    change q < d ∧ (q = topCpuset ∨ ((s.update s.nextId cs).cpusets q).parent ≠ none)
    rw [update_apply] at hq
    rw [update_apply]
    split at hq
    · rename_i hd
      obtain rfl : p = q := Option.some.inj (hf.parent.symm.trans hq)
      rw [hd, if_neg hpn.ne]
      refine ⟨hpn, hp.imp_right fun hmem => ?_⟩
      obtain ⟨r, hr, -⟩ := h.parent p hmem
      rw [hr]
      exact Option.some_ne_none r
    · obtain ⟨hqd, hmade⟩ := h.up d q hq
      refine ⟨hqd, hmade.imp_right fun hne => ?_⟩
      split
      · rw [hf.parent]
        exact Option.some_ne_none p
      · exact hne
  · rintro d q ⟨hd, hq⟩
    change ((s.update s.nextId cs).cpusets d).isCpuExclusive ≤
      ((s.update s.nextId cs).cpusets q).isCpuExclusive
    rcases hup hd hq with ⟨rfl, rfl⟩ | ⟨hdn, hdq⟩
    · rw [hnew, hf.cpuExclusive]
      exact Bool.false_le _
    · rw [hold hdn, hold (hlt hdq)]
      exact h.cpuExclusive d q hdq
  · rintro d q ⟨hd, hq⟩
    change ((s.update s.nextId cs).cpusets d).isMemExclusive ≤
      ((s.update s.nextId cs).cpusets q).isMemExclusive
    rcases hup hd hq with ⟨rfl, rfl⟩ | ⟨hdn, hdq⟩
    · rw [hnew, hf.memExclusive]
      exact Bool.false_le _
    · rw [hold hdn, hold (hlt hdq)]
      exact h.memExclusive d q hdq
  · rintro d e q ⟨hd, hdq⟩ ⟨he, heq⟩ hne hex
    change ((s.update s.nextId cs).cpusets d).isCpuExclusive = true at hex
    change Disjoint ((s.update s.nextId cs).cpusets d).cpusAllowed
      ((s.update s.nextId cs).cpusets e).cpusAllowed
    rcases hup hd hdq with ⟨rfl, rfl⟩ | ⟨hdn, hdq⟩
    · rw [hnew, hf.cpuExclusive] at hex
      cases hex
    · rw [hold hdn] at hex ⊢
      rcases hup he heq with ⟨rfl, rfl⟩ | ⟨hen, heq⟩
      · rw [hnew]
        rcases hf.masks with ⟨hempty, -⟩ | ⟨-, -, -, halone⟩
        · rw [hempty]
          exact Finset.disjoint_empty_right _
        · rw [(halone d hdq).1] at hex
          cases hex
      · rw [hold hen]
        exact h.cpusApart d e q hdq heq hne hex
  · rintro d e q ⟨hd, hdq⟩ ⟨he, heq⟩ hne hex
    change ((s.update s.nextId cs).cpusets d).isMemExclusive = true at hex
    change Disjoint ((s.update s.nextId cs).cpusets d).memsAllowed
      ((s.update s.nextId cs).cpusets e).memsAllowed
    rcases hup hd hdq with ⟨rfl, rfl⟩ | ⟨hdn, hdq⟩
    · rw [hnew, hf.memExclusive] at hex
      cases hex
    · rw [hold hdn] at hex ⊢
      rcases hup he heq with ⟨rfl, rfl⟩ | ⟨hen, heq⟩
      · rw [hnew]
        rcases hf.masks with ⟨-, hempty⟩ | ⟨-, -, -, halone⟩
        · rw [hempty]
          exact Finset.disjoint_empty_right _
        · rw [(halone d hdq).2] at hex
          cases hex
      · rw [hold hen]
        exact h.memsApart d e q hdq heq hne hex

/-- A cgroup without children is unlinked. -/
theorem Rules.unlink (h : Rules s) {c : CsId} (hc : c ∈ s.created) (hchildren : s.children c = []) :
    Rules
      { s.update c ((s.cpusets c).setFlag .online false) with
        numberOfCpusets := s.numberOfCpusets - 1
        created := s.created.erase c } := by
  have hother : ∀ {d}, d ≠ c → (s.update c ((s.cpusets c).setFlag .online false)).cpusets d =
      s.cpusets d := fun hd => System.update_cpusets_of_ne s _ hd
  have hself : (s.update c ((s.cpusets c).setFlag .online false)).cpusets c =
      (s.cpusets c).setFlag .online false := System.update_cpusets_self ..
  have hleaf : ∀ d, ¬ Up s d c := fun d hd => by
    have hmem := mem_children.2 hd
    rw [hchildren] at hmem
    cases hmem
  have hparent : ∀ d, ((s.update c ((s.cpusets c).setFlag .online false)).cpusets d).parent =
      (s.cpusets d).parent := by
    intro d
    by_cases hd : d = c
    · rw [hd, hself, Cpuset.setFlag_parent]
    · rw [hother hd]
  have hmem : ∀ {d}, d ∈ s.created.erase c ↔ d ≠ c ∧ d ∈ s.created := h.nodup.mem_erase_iff
  -- A step up that is left is an old one, away from the cgroup that went.
  have hup : ∀ {d q}, d ∈ s.created.erase c →
      ((s.update c ((s.cpusets c).setFlag .online false)).cpusets d).parent = some q →
      Up s d q ∧ d ≠ c ∧ q ≠ c := by
    intro d q hd hq
    rw [hparent] at hq
    obtain ⟨hdc, hlinked⟩ := hmem.1 hd
    refine ⟨⟨hlinked, hq⟩, hdc, ?_⟩
    rintro rfl
    exact hleaf d ⟨hlinked, hq⟩
  refine ⟨⟨?_, ?_, ?_, ?_, ?_, ?_, ?_⟩, ?_, ?_, ?_, ?_, ?_⟩
  · exact h.nodup.erase c
  · exact (hparent topCpuset).trans h.root
  · intro d hd
    have hdlinked := (hmem.1 hd).2
    obtain ⟨q, hq, hqlt, hlinked⟩ := h.parent d hdlinked
    refine ⟨q, (hparent d).trans hq, hqlt, hlinked.imp_right fun hq' => hmem.2 ⟨?_, hq'⟩⟩
    rintro rfl
    exact hleaf d ⟨hdlinked, hq⟩
  · exact h.rootYoung
  · intro d hd
    exact h.young d (hmem.1 hd).2
  · intro d
    change ((s.update c ((s.cpusets c).setFlag .online false)).cpusets d).isOnline = true ↔
      d = topCpuset ∨ d ∈ s.created.erase c
    by_cases hd : d = c
    · subst hd
      have hoff : ((s.cpusets d).setFlag .online false).isOnline = false :=
        Cpuset.setFlag_flags_self ..
      have hne : d ≠ topCpuset := h.ne_top hc
      rw [hself, hoff, hmem]
      simp [hne]
    · rw [hother hd, h.online d, hmem, and_iff_right hd]
  · change s.numberOfCpusets - 1 = ((s.created.erase c).length : Int) + 1
    have hpos : 0 < s.created.length := List.length_pos_of_mem hc
    rw [h.number, List.length_erase_of_mem hc]
    omega
  · intro d q hq
    change ((s.update c ((s.cpusets c).setFlag .online false)).cpusets d).parent = some q at hq
    change q < d ∧ (q = topCpuset ∨
      ((s.update c ((s.cpusets c).setFlag .online false)).cpusets q).parent ≠ none)
    rw [hparent] at hq ⊢
    exact h.up d q hq
  · rintro d q ⟨hd, hq⟩
    obtain ⟨hdq, hdc, hqc⟩ := hup hd hq
    change ((s.update c _).cpusets d).isCpuExclusive ≤ ((s.update c _).cpusets q).isCpuExclusive
    rw [hother hdc, hother hqc]
    exact h.cpuExclusive d q hdq
  · rintro d q ⟨hd, hq⟩
    obtain ⟨hdq, hdc, hqc⟩ := hup hd hq
    change ((s.update c _).cpusets d).isMemExclusive ≤ ((s.update c _).cpusets q).isMemExclusive
    rw [hother hdc, hother hqc]
    exact h.memExclusive d q hdq
  · rintro d e q ⟨hd, hdq⟩ ⟨he, heq⟩ hne hex
    obtain ⟨hdq, hdc, -⟩ := hup hd hdq
    obtain ⟨heq, hec, -⟩ := hup he heq
    change ((s.update c _).cpusets d).isCpuExclusive = true at hex
    change Disjoint ((s.update c _).cpusets d).cpusAllowed ((s.update c _).cpusets e).cpusAllowed
    rw [hother hdc] at hex
    rw [hother hdc, hother hec]
    exact h.cpusApart d e q hdq heq hne hex
  · rintro d e q ⟨hd, hdq⟩ ⟨he, heq⟩ hne hex
    obtain ⟨hdq, hdc, -⟩ := hup hd hdq
    obtain ⟨heq, hec, -⟩ := hup he heq
    change ((s.update c _).cpusets d).isMemExclusive = true at hex
    change Disjoint ((s.update c _).cpusets d).memsAllowed ((s.update c _).cpusets e).memsAllowed
    rw [hother hdc] at hex
    rw [hother hdc, hother hec]
    exact h.memsApart d e q hdq heq hne hex

/-- The rules, for events that change no parent, no flag and of the masks below the root only what
they take away. -/
theorem Kept.sameTree {s' : System Cpu Node} (h : Kept s) (hsame : SameTree s s')
    (hcpus : ∀ c ∈ s.created, (s'.cpusets c).cpusAllowed ⊆ (s.cpusets c).cpusAllowed)
    (hmems : ∀ c ∈ s.created, (s'.cpusets c).memsAllowed ⊆ (s.cpusets c).memsAllowed)
    (hmachine : s'.cpuActiveMask ≠ ∅ ∧ s'.nodeMemory ≠ ∅)
    (htop : (s'.cpusets topCpuset).cpusAllowed ≠ ∅ ∧ (s'.cpusets topCpuset).memsAllowed ≠ ∅)
    (hqueued : ∀ c ∈ s'.queued, Made s c)
    (hemptied : ∀ c, s'.emptied = some c → (s.cpusets c).parent ≠ none)
    (hattach : ∀ c, (s'.cpusets c).attachInProgress ≠ 0 → Made s c) : Kept s' := by
  have hmade : ∀ c, Made s c → Made s' c := by
    intro c hc
    rwa [Made, hsame.parent]
  refine ⟨hsame.rules h.toRules hcpus hmems, hmachine.1, hmachine.2, htop.1, htop.2, ?_, ?_, ?_⟩
  · exact fun c hc => hmade c (hqueued c hc)
  · intro c hc
    rw [hsame.parent]
    exact hemptied c hc
  · exact fun c hc => hmade c (hattach c hc)

/-- Only the counts of tasks change. -/
theorem Kept.counts (h : Kept s) {c : CsId} {cs : Cpuset Cpu Node}
    (hcs : ∃ n attach, cs = { s.cpusets c with taskCount := n, attachInProgress := attach })
    (hmade : cs.attachInProgress ≠ 0 → Made s c) : Kept (s.update c cs) := by
  obtain ⟨n, attach, hcs⟩ := hcs
  have hmasks : ∀ d, ((s.update c cs).cpusets d).cpusAllowed = (s.cpusets d).cpusAllowed ∧
      ((s.update c cs).cpusets d).memsAllowed = (s.cpusets d).memsAllowed := by
    intro d
    rw [update_apply]
    split
    · rename_i hd
      rw [hcs, hd]
      exact ⟨rfl, rfl⟩
    · exact ⟨rfl, rfl⟩
  refine h.sameTree (sameTree_update (by rw [hcs]) (by rw [hcs])) (fun d _ => (hmasks d).1.subset)
    (fun d _ => (hmasks d).2.subset) ⟨h.active, h.memory⟩ ?_ h.queued h.emptied ?_
  · rw [(hmasks topCpuset).1, (hmasks topCpuset).2]
    exact ⟨h.topCpus, h.topMems⟩
  · intro d hd
    rw [update_apply] at hd
    split at hd
    · rename_i hdc
      exact hdc ▸ hmade hd
    · exact h.attach d hd

theorem Kept.create (h : Kept s) {p : CsId} (hp : p = topCpuset ∨ p ∈ s.created) (clone : Bool) :
    Kept (create s p clone) := by
  obtain ⟨cs, hf, heq⟩ := create_eq h.toTree hp clone
  rw [heq]
  have htop : (s.update s.nextId cs).cpusets topCpuset = s.cpusets topCpuset :=
    System.update_cpusets_of_ne s cs h.rootYoung.ne
  have hparent : ∀ {c}, (s.cpusets c).parent ≠ none →
      ((s.update s.nextId cs).cpusets c).parent ≠ none := by
    intro c hc
    rw [update_apply]
    split
    · rw [hf.parent]
      exact Option.some_ne_none p
    · exact hc
  refine ⟨hf.rules h.toRules hp, h.active, h.memory, ?_, ?_, ?_, ?_, ?_⟩
  · exact (congrArg Cpuset.cpusAllowed htop).trans_ne h.topCpus
  · exact (congrArg Cpuset.memsAllowed htop).trans_ne h.topMems
  · exact fun c hc => (h.queued c hc).imp_right hparent
  · exact fun c hc => hparent (h.emptied c hc)
  · intro c hc
    change ((s.update s.nextId cs).cpusets c).attachInProgress ≠ 0 at hc
    rw [update_apply] at hc
    split at hc
    · exact absurd hf.attachInProgress hc
    · exact (h.attach c hc).imp_right hparent

theorem Kept.schedule (h : Kept s) {c : CsId} (hc : Made s c) :
    Kept (scheduleCpusetPropagateHotplug s c) := by
  rw [scheduleCpusetPropagateHotplug]
  split
  · exact h
  · refine h.sameTree (s := s) ⟨rfl, rfl, rfl, fun _ => rfl, fun _ => rfl⟩ (fun _ _ => subset_rfl)
      (fun _ _ => subset_rfl) ⟨h.active, h.memory⟩ ⟨h.topCpus, h.topMems⟩ ?_ h.emptied h.attach
    intro d hd
    rcases List.mem_append.1 hd with hd | hd
    · exact h.queued d hd
    · exact List.mem_singleton.1 hd ▸ hc

theorem Kept.cancelAttach (h : Kept s) {c : CsId} (hc : (s.cpusets c).attachInProgress ≠ 0) :
    Kept (cpusetCancelAttach s c) :=
  h.counts ⟨_, _, rfl⟩ fun _ => h.attach c hc

theorem moveTasks_attach (s : System Cpu Node) (src dst : CsId) (n : Nat) (c : CsId) :
    ((moveTasks s src dst n).cpusets c).attachInProgress = (s.cpusets c).attachInProgress := by
  simp only [moveTasks, update_apply]
  split <;> split <;> simp_all

theorem Kept.move (h : Kept s) (src dst : CsId) (n : Nat) : Kept (moveTasks s src dst n) := by
  have hsrc : Kept (s.update src { s.cpusets src with
      taskCount := (s.cpusets src).taskCount - n }) := h.counts ⟨_, _, rfl⟩ fun hne => h.attach src hne
  exact hsrc.counts ⟨_, _, rfl⟩ fun hne => hsrc.attach dst hne

variable [DecidableEq Cpu] [DecidableEq Node]

theorem Changed.kept {s' : System Cpu Node} {c : CsId} {file : Option FileType}
    (hchange : Changed s c file s') (h : Kept s) : Kept s' := by
  have hf := hchange.framed
  refine ⟨hchange.rules h.toRules, ?_, ?_, ?_, ?_, ?_, ?_, ?_⟩
  · rw [hf.active]
    exact h.active
  · rw [hf.memory]
    exact h.memory
  · rw [hf.topCpus]
    exact h.topCpus
  · rw [hf.topMems]
    exact h.topMems
  · intro d hd
    rw [hf.queued] at hd
    exact hf.made.2 (h.queued d hd)
  · intro d hd
    rw [hf.emptied] at hd
    rw [hf.parent]
    exact h.emptied d hd
  · intro d hd
    rw [hf.attach] at hd
    exact hf.made.2 (h.attach d hd)

theorem Kept.remove (h : Kept s) {c : CsId} (hc : c ∈ s.created) (hchildren : s.children c = [])
    (mem : Memory) : ∃ s', remove s c mem = some s' ∧ Kept s' := by
  obtain ⟨t, hchange, heq⟩ := remove_eq h.toTree c mem
  have ht := hchange.kept h
  have hf := hchange.framed
  have hother : ∀ d, ((t.update c ((t.cpusets c).setFlag .online false)).cpusets d).parent =
      (t.cpusets d).parent ∧
      ((t.update c ((t.cpusets c).setFlag .online false)).cpusets d).attachInProgress =
        (t.cpusets d).attachInProgress := by
    intro d
    rw [update_apply]
    split
    · rename_i hd
      rw [hd]
      exact ⟨rfl, rfl⟩
    · exact ⟨rfl, rfl⟩
  have htop : (t.update c ((t.cpusets c).setFlag .online false)).cpusets topCpuset =
      t.cpusets topCpuset := System.update_cpusets_of_ne t _ (h.ne_top hc).symm
  have hleaf : t.children c = [] := by
    rw [System.children, hf.created, ← hchildren, System.children]
    exact List.filter_congr fun d _ => by rw [hf.parent]
  refine ⟨_, heq, ht.toRules.unlink (hf.created.symm ▸ hc) hleaf, ht.active, ht.memory, ?_, ?_, ?_,
    ?_, ?_⟩
  · exact (congrArg Cpuset.cpusAllowed htop).trans_ne ht.topCpus
  · exact (congrArg Cpuset.memsAllowed htop).trans_ne ht.topMems
  · exact fun d hd => (ht.queued d hd).imp_right fun hne => (hother d).1.trans_ne hne
  · exact fun d hd => (hother d).1.trans_ne (ht.emptied d hd)
  · exact fun d hd => (ht.attach d ((hother d).2.symm.trans_ne hd)).imp_right fun hne =>
      (hother d).1.trans_ne hne

theorem Kept.attachTasks (h : Kept s) {src c : CsId} {n : Nat}
    (hc : (s.cpusets c).attachInProgress ≠ 0) : Kept (cpusetAttach (moveTasks s src c n) c) := by
  have hmoved := h.move src c n
  have hne : ((moveTasks s src c n).cpusets c).attachInProgress ≠ 0 := by
    rw [moveTasks_attach]
    exact hc
  have hcancel := hmoved.cancelAttach hne
  rw [cpusetAttach]
  split
  · refine hcancel.schedule ?_
    have hmade := hmoved.attach c hne
    rwa [Made, cpusetCancelAttach, System.update_cpusets_self]
  · exact hcancel

theorem Kept.hotplugWork (h : Kept s) : Kept (cpusetHotplugWorkfn s) := by
  obtain ⟨q, heq, hq, -, -⟩ := cpusetHotplugWorkfn_eq h.toTree
  rw [heq]
  have htop : (s.update topCpuset { s.cpusets topCpuset with
      cpusAllowed := s.cpuActiveMask, memsAllowed := s.nodeMemory }).cpusets topCpuset =
      { s.cpusets topCpuset with
        cpusAllowed := s.cpuActiveMask, memsAllowed := s.nodeMemory } :=
    System.update_cpusets_self ..
  have hother : ∀ {c}, c ∈ s.created → (s.update topCpuset { s.cpusets topCpuset with
      cpusAllowed := s.cpuActiveMask, memsAllowed := s.nodeMemory }).cpusets c = s.cpusets c :=
    fun hc => System.update_cpusets_of_ne s _ (h.ne_top hc)
  have hsame : SameTree s (s.update topCpuset { s.cpusets topCpuset with
      cpusAllowed := s.cpuActiveMask, memsAllowed := s.nodeMemory }) := sameTree_update rfl rfl
  refine h.sameTree ⟨hsame.created, hsame.nextId, hsame.number, hsame.parent, hsame.flags⟩
    (fun c hc => (congrArg Cpuset.cpusAllowed (hother hc)).subset)
    (fun c hc => (congrArg Cpuset.memsAllowed (hother hc)).subset) ⟨h.active, h.memory⟩ ⟨?_, ?_⟩ ?_
    h.emptied ?_
  · exact (congrArg Cpuset.cpusAllowed htop).trans_ne h.active
  · exact (congrArg Cpuset.memsAllowed htop).trans_ne h.memory
  · intro c hc
    exact (hq c hc).elim (h.queued c) fun hmem => .inr (h.made_of_created hmem)
  · intro c hc
    change ((s.update topCpuset _).cpusets c).attachInProgress ≠ 0 at hc
    rw [update_apply] at hc
    split at hc
    · rename_i hct
      exact .inl hct
    · exact h.attach c hc

/-! ### Hotplug work of a cpuset -/

omit [DecidableEq Node] in
theorem trimmed_cpus (top cs : Cpuset Cpu Node) [DecidableEq Node] :
    (trimmed top cs).cpusAllowed =
      if Disjoint cs.cpusAllowed top.cpusAllowed then ∅ else cs.cpusAllowed := by
  simp only [trimmed]
  split
  · rename_i hoff
    rw [if_pos hoff.2, sdiff_sdiff_right_self, Finset.inf_eq_inter]
    exact Finset.disjoint_iff_inter_eq_empty.1 hoff.2
  · rename_i hoff
    rw [not_and_or, not_not] at hoff
    split
    · rename_i hdisjoint
      rcases hoff with hoff | hoff
      · rwa [hdisjoint.sdiff_eq_left] at hoff
      · exact absurd hdisjoint hoff
    · rfl

theorem trimmed_mems (top cs : Cpuset Cpu Node) :
    (trimmed top cs).memsAllowed = cs.memsAllowed ∩ top.memsAllowed := by
  simp only [trimmed]
  split
  · rw [sdiff_sdiff_right_self, Finset.inf_eq_inter]
  · rename_i hoff
    rw [not_not, Finset.sdiff_eq_empty_iff_subset] at hoff
    exact (Finset.inter_eq_left.2 hoff).symm

theorem trimmed_subset (top cs : Cpuset Cpu Node) :
    (trimmed top cs).cpusAllowed ⊆ cs.cpusAllowed ∧
      (trimmed top cs).memsAllowed ⊆ cs.memsAllowed := by
  rw [trimmed_cpus, trimmed_mems]
  refine ⟨?_, Finset.inter_subset_left⟩
  split
  · exact Finset.empty_subset _
  · exact subset_rfl

theorem trimmed_self (top : Cpuset Cpu Node) (h : top.cpusAllowed ≠ ∅) :
    (trimmed top top).cpusAllowed = top.cpusAllowed ∧
      (trimmed top top).memsAllowed = top.memsAllowed := by
  rw [trimmed_cpus, trimmed_mems, Finset.inter_self, if_neg]
  · exact ⟨rfl, rfl⟩
  · rw [disjoint_self, Finset.bot_eq_empty]
    exact h

theorem isEmpty_iff {cs : Cpuset Cpu Node} :
    cs.isEmpty = true ↔ cs.cpusAllowed = ∅ ∨ cs.memsAllowed = ∅ := by
  rw [Cpuset.isEmpty, Bool.or_eq_true, decide_eq_true_iff, decide_eq_true_iff]

theorem Kept.propagate (h : Kept s) {c : CsId} {rest : List CsId} (hq : s.queued = c :: rest) :
    Kept (cpusetPropagateHotplugWorkfn { s with queued := rest } c) := by
  obtain ⟨cs, hcs⟩ : ∃ cs, cs = trimmed (s.cpusets topCpuset) (s.cpusets c) := ⟨_, rfl⟩
  have hsub := hcs ▸ trimmed_subset (s.cpusets topCpuset) (s.cpusets c)
  have hmade : Made s c := h.queued c (hq ▸ List.mem_cons_self)
  have hsame : SameTree s (s.update c cs) := sameTree_update (by rw [hcs]; rfl) (by rw [hcs]; rfl)
  have heq : cpusetPropagateHotplugWorkfn { s with queued := rest } c =
      { s.update c cs with queued := rest, emptied := if cs.isEmpty then some c else none } := by
    rw [hcs]
    rfl
  have hmasks : ∀ d, ((s.update c cs).cpusets d).cpusAllowed ⊆ (s.cpusets d).cpusAllowed ∧
      ((s.update c cs).cpusets d).memsAllowed ⊆ (s.cpusets d).memsAllowed := by
    intro d
    rw [update_apply]
    split
    · rename_i hd
      exact hd ▸ hsub
    · exact ⟨subset_rfl, subset_rfl⟩
  have hself : c = topCpuset → cs.cpusAllowed = (s.cpusets topCpuset).cpusAllowed ∧
      cs.memsAllowed = (s.cpusets topCpuset).memsAllowed := by
    rintro rfl
    rw [hcs]
    exact trimmed_self _ h.topCpus
  rw [heq]
  refine h.sameTree ⟨hsame.created, hsame.nextId, hsame.number, hsame.parent, hsame.flags⟩
    (fun d _ => (hmasks d).1) (fun d _ => (hmasks d).2) ⟨h.active, h.memory⟩ ?_ ?_ ?_ ?_
  · change ((s.update c cs).cpusets topCpuset).cpusAllowed ≠ ∅ ∧
      ((s.update c cs).cpusets topCpuset).memsAllowed ≠ ∅
    rw [update_apply]
    split
    · rename_i htop
      rw [(hself htop.symm).1, (hself htop.symm).2]
      exact ⟨h.topCpus, h.topMems⟩
    · exact ⟨h.topCpus, h.topMems⟩
  · exact fun d hd => h.queued d (hq ▸ List.mem_cons_of_mem c hd)
  · intro d hd
    change (if cs.isEmpty then some c else none) = some d at hd
    split at hd
    · rename_i hempty
      obtain rfl := Option.some.inj hd
      refine hmade.resolve_left fun htop => ?_
      rw [isEmpty_iff, (hself htop).1, (hself htop).2] at hempty
      exact hempty.elim h.topCpus h.topMems
    · cases hd
  · intro d hd
    change ((s.update c cs).cpusets d).attachInProgress ≠ 0 at hd
    rw [update_apply] at hd
    split at hd
    · rename_i hdc
      exact hdc ▸ hmade
    · exact h.attach d hd

/-- The walk up from a cpuset that was made meets one with CPUs and memory, the root at the latest. -/
theorem Kept.exists_ancestor (h : Kept s) {n c : CsId} (hn : c < n)
    (hc : (s.cpusets c).parent ≠ none) :
    ∃ p, nonEmptyAncestor s n c = some p ∧ (s.cpusets p).isEmpty = false := by
  induction n generalizing c with
  | zero => exact absurd hn (Nat.not_lt_zero c)
  | succ n ih =>
      obtain ⟨p, hp⟩ := Option.ne_none_iff_exists'.1 hc
      obtain ⟨hlt, hmade⟩ := h.up c p hp
      rw [nonEmptyAncestor, hp]
      dsimp only
      split
      · rename_i hempty
        refine ih (lt_of_lt_of_le hlt (Nat.le_of_lt_succ hn)) (hmade.resolve_left ?_)
        rintro rfl
        exact (isEmpty_iff.1 hempty).elim h.topCpus h.topMems
      · rename_i hfull
        exact ⟨p, rfl, Bool.not_eq_true _ ▸ hfull⟩

theorem Kept.transfer (h : Kept s) {c : CsId} (hc : s.emptied = some c) (moved : Bool) :
    ∃ s', removeTasksInEmptyCpuset s c moved = some s' ∧ Kept s' := by
  obtain ⟨p, hp, -⟩ := h.exists_ancestor (Nat.lt_succ_self c) (h.emptied c hc)
  have hclear : ∀ {t : System Cpu Node}, Kept t → Kept { t with emptied := none } := by
    intro t ht
    refine ht.sameTree (s := t) ⟨rfl, rfl, rfl, fun _ => rfl, fun _ => rfl⟩ (fun _ _ => subset_rfl)
      (fun _ _ => subset_rfl) ⟨ht.active, ht.memory⟩ ⟨ht.topCpus, ht.topMems⟩ ht.queued ?_ ht.attach
    rintro d hd
    cases hd
  refine ⟨_, by rw [removeTasksInEmptyCpuset, hp, Option.map_some], hclear ?_⟩
  split
  · exact h.move c p _
  · exact h

omit [DecidableEq Node] in
theorem Kept.done (h : Kept s) (mem : Memory) : ∃ s', hotplugDone s mem = some s' ∧ Kept s' := by
  have hclear : ∀ {t : System Cpu Node} (w : Hotplug), Kept t → Kept { t with hotplug := w } := by
    intro t w ht
    exact ht.sameTree (s := t) ⟨rfl, rfl, rfl, fun _ => rfl, fun _ => rfl⟩ (fun _ _ => subset_rfl)
      (fun _ _ => subset_rfl) ⟨ht.active, ht.memory⟩ ⟨ht.topCpus, ht.topMems⟩ ht.queued ht.emptied
      ht.attach
  have hkept := hclear { s.hotplug with running := false } h
  rw [hotplugDone]
  dsimp only
  split
  · obtain ⟨d, hd⟩ := rebuild_returns hkept.toTree mem.domains
    refine ⟨_, hd, ?_⟩
    exact hkept.sameTree ⟨rfl, rfl, rfl, fun _ => rfl, fun _ => rfl⟩ (fun _ _ => subset_rfl)
      (fun _ _ => subset_rfl) ⟨h.active, h.memory⟩ ⟨h.topCpus, h.topMems⟩ h.queued h.emptied h.attach
  · exact ⟨_, rfl, hkept⟩

/-- Every event that can happen is handled, and keeps the rules. -/
theorem Kept.handle (h : Kept s) {e : Event Cpu Node} (he : Possible s e) :
    ∃ s', handle s e = some s' ∧ Kept s' := by
  have hcall : ∀ {c file result}, Returns s c file result →
      ∃ s', result.map Prod.fst = some s' ∧ Kept s' := by
    rintro c file _ ⟨s', r, rfl, hchange, -⟩
    exact ⟨s', rfl, hchange.kept h⟩
  cases e with
  | create p clone => exact ⟨_, rfl, h.create he clone⟩
  | remove c mem => exact h.remove he.1 he.2.1 mem
  | writeU64 c type val mem => exact hcall (cpusetWriteU64_returns h.toTree type val mem)
  | writeS64 c type val mem => exact hcall (cpusetWriteS64_returns h.toTree type val mem)
  | writeResmask c type text mem => exact hcall (cpusetWriteResmask_returns h.toTree type text mem)
  | tasks c n => exact ⟨_, rfl, h.counts ⟨n, _, rfl⟩ fun hne => h.attach c hne⟩
  | canAttach c refusal =>
      refine ⟨_, rfl, ?_⟩
      rw [cpusetCanAttach]
      split
      · exact h
      split
      · exact h
      · exact h.counts ⟨_, _, rfl⟩ fun _ => he.imp_right fun hmem => h.made_of_created hmem
  | cancelAttach c => exact ⟨_, rfl, h.cancelAttach he⟩
  | attach src c n => exact ⟨_, rfl, h.attachTasks he.1⟩
  | setActive mask =>
      refine ⟨_, rfl, ?_⟩
      exact h.sameTree ⟨rfl, rfl, rfl, fun _ => rfl, fun _ => rfl⟩ (fun _ _ => subset_rfl)
        (fun _ _ => subset_rfl) ⟨he, h.memory⟩ ⟨h.topCpus, h.topMems⟩ h.queued h.emptied h.attach
  | setMemory mask =>
      refine ⟨_, rfl, ?_⟩
      exact h.sameTree ⟨rfl, rfl, rfl, fun _ => rfl, fun _ => rfl⟩ (fun _ _ => subset_rfl)
        (fun _ _ => subset_rfl) ⟨h.active, he⟩ ⟨h.topCpus, h.topMems⟩ h.queued h.emptied h.attach
  | hotplugWork => exact ⟨_, rfl, h.hotplugWork⟩
  | propagate =>
      cases hq : s.queued with
      | nil => exact absurd hq he.1
      | cons c rest => exact ⟨_, by rw [handle.eq_def]; simp only [hq], h.propagate hq⟩
  | transfer moved =>
      obtain ⟨c, hc⟩ := Option.ne_none_iff_exists'.1 he
      obtain ⟨s', hs', hkept⟩ := h.transfer hc moved
      exact ⟨s', by rw [handle.eq_def]; simp only [hc, hs'], hkept⟩
  | hotplugDone mem => exact h.done mem

theorem Kept.next (h : Kept s) {e : Event Cpu Node} (he : Possible s e) : Kept (next s e) := by
  obtain ⟨s', hs', hkept⟩ := h.handle he
  rwa [LineageA1000.Cpusets.next, hs', Option.getD_some]

omit [DecidableEq Cpu] [DecidableEq Node] in
theorem booted_kept {active : Finset Cpu} {memory : Finset Node} (hactive : active ≠ ∅)
    (hmemory : memory ≠ ∅) (levelMax : Int) (tasks : Nat) :
    Kept (booted active memory levelMax tasks) := by
  have hparent : ∀ c, ((booted active memory levelMax tasks).cpusets c).parent = none := by
    intro c
    simp only [booted]
    split <;> rfl
  have hattach : ∀ c, ((booted active memory levelMax tasks).cpusets c).attachInProgress = 0 := by
    intro c
    simp only [booted]
    split <;> rfl
  have hup : ∀ {c p}, ¬ Up (booted active memory levelMax tasks) c p := by
    rintro c p ⟨hmem, -⟩
    cases hmem
  refine ⟨⟨⟨List.nodup_nil, hparent _, ?_, Nat.zero_lt_one, ?_, ?_, rfl⟩, ?_, ?_, ?_, ?_, ?_⟩,
    hactive, hmemory, hactive, hmemory, ?_, ?_, ?_⟩
  · rintro c hc
    cases hc
  · rintro c hc
    cases hc
  · intro c
    simp only [booted, Cpuset.isOnline, List.not_mem_nil, or_false]
    split
    · simp_all
    · simp_all
  · intro c p hp
    rw [hparent] at hp
    cases hp
  · exact fun c p hcp => absurd hcp hup
  · exact fun c p hcp => absurd hcp hup
  · exact fun c d p hcp => absurd hcp hup
  · exact fun c d p hcp => absurd hcp hup
  · rintro c hc
    cases hc
  · rintro c hc
    cases hc
  · exact fun c hc => absurd (hattach c) hc

end Rules

/-! ### Runs -/

section Runs

variable [DecidableEq Cpu] [DecidableEq Node]

scoped instance instNeZeroCpus : NeZero 4 := ⟨by decide⟩
scoped instance instNeZeroNodes : NeZero 1 := ⟨by decide⟩

/-- All allocations succeed. -/
def plenty : Memory := ⟨true, true, true, ⟨true, true, true⟩⟩

/-- A cpuset gets four CPUs and five tasks, the root stops balancing, and three CPUs go away and come
back. -/
def screenCycle : List (Event (Fin 4) (Fin 1)) :=
  [.create 0 false,
    .writeResmask 1 .cpulist ⟨false, .ok {0, 1, 2, 3}, .ok ∅⟩ plenty,
    .writeResmask 1 .memlist ⟨false, .ok ∅, .ok {0}⟩ plenty,
    .writeU64 0 .schedLoadBalance 0 plenty,
    .canAttach 1 0, .attach 0 1 5,
    .setActive {0}, .hotplugWork, .propagate, .hotplugDone plenty,
    .setActive {0, 1, 2, 3}, .hotplugWork, .hotplugDone plenty]

end Runs

end LineageA1000.Cpusets
