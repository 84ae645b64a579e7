import LineageA1000.Cpusets.Kept

/-!
# The nesting of the masks

Whenever hotplug work does not wait for the cpusets, a cpuset's memory is within its parent's, its
CPUs are within its parent's unless the parent is the root, and it has no CPUs at all or one that the
root has. That its CPUs need not be within the root's is this kernel's hotplug, which leaves a cpuset
the CPUs that went away as long as one is left.

While the work goes round, a cpuset whose turn has not come may stick out of its parent, but only
with what the root has lost.
-/

namespace LineageA1000.Cpusets

variable {Cpu Node : Type*}

/-- The masks as they are when no hotplug work goes round. -/
structure Proper (s : System Cpu Node) : Prop where
  cpus : ∀ c p, Up s c p → p ≠ topCpuset → (s.cpusets c).cpusAllowed ⊆ (s.cpusets p).cpusAllowed
  mems : ∀ c p, Up s c p → (s.cpusets c).memsAllowed ⊆ (s.cpusets p).memsAllowed
  alive : ∀ c ∈ s.created, (s.cpusets c).cpusAllowed = ∅ ∨
    ¬ Disjoint (s.cpusets c).cpusAllowed (s.cpusets topCpuset).cpusAllowed

/-- The cpuset has memory of the root only, and no CPUs or one that the root has. -/
def Clean (s : System Cpu Node) (c : CsId) : Prop :=
  (s.cpusets c).memsAllowed ⊆ (s.cpusets topCpuset).memsAllowed ∧
    ((s.cpusets c).cpusAllowed = ∅ ∨
      ¬ Disjoint (s.cpusets c).cpusAllowed (s.cpusets topCpuset).cpusAllowed)

/-- The root has the machine's masks unless work is scheduled, a cpuset sticks out of its parent
only with what the root does not have, and its work is queued unless it is clean. -/
structure Nests (s : System Cpu Node) : Prop where
  synced : s.hotplug.scheduled = false →
    (s.cpusets topCpuset).cpusAllowed = s.cpuActiveMask ∧
      (s.cpusets topCpuset).memsAllowed = s.nodeMemory
  cpus : ∀ c p, Up s c p → p ≠ topCpuset →
    (s.cpusets c).cpusAllowed ⊆ (s.cpusets p).cpusAllowed ∨
      Disjoint (s.cpusets c).cpusAllowed (s.cpusets topCpuset).cpusAllowed
  mems : ∀ c p, Up s c p →
    ∀ m ∈ (s.cpusets c).memsAllowed, m ∈ (s.cpusets topCpuset).memsAllowed →
      m ∈ (s.cpusets p).memsAllowed
  clean : ∀ c ∈ s.created, Clean s c ∨ s.hotplug.running = true ∧ c ∈ s.queued

section Nests

variable {s s' : System Cpu Node}

theorem Nests.proper (h : Nests s) (hrest : s.hotplug.running = false) : Proper s := by
  have hclean : ∀ c ∈ s.created, Clean s c := by
    intro c hc
    refine (h.clean c hc).resolve_right fun hwork => ?_
    rw [hrest] at hwork
    cases hwork.1
  constructor
  · intro c p hup hp
    rcases h.cpus c p hup hp with hsub | hgone
    · exact hsub
    · rcases (hclean c hup.1).2 with hempty | hmeets
      · rw [hempty]
        exact Finset.empty_subset _
      · exact absurd hgone hmeets
  · exact fun c p hup m hm => h.mems c p hup m hm ((hclean c hup.1).1 hm)
  · exact fun c hc => (hclean c hc).2

/-- Events that change no mask, link nothing anew and leave the work of the linked cpusets queued. -/
theorem Nests.same (h : Nests s) (hcreated : ∀ c ∈ s'.created, c ∈ s.created)
    (hparent : ∀ c ∈ s'.created, (s'.cpusets c).parent = (s.cpusets c).parent)
    (hcpus : ∀ c, (s'.cpusets c).cpusAllowed = (s.cpusets c).cpusAllowed)
    (hmems : ∀ c, (s'.cpusets c).memsAllowed = (s.cpusets c).memsAllowed)
    (hsynced : s'.hotplug.scheduled = false → s.hotplug.scheduled = false ∧
      s'.cpuActiveMask = s.cpuActiveMask ∧ s'.nodeMemory = s.nodeMemory)
    (hwork : ∀ c ∈ s'.created, s.hotplug.running = true ∧ c ∈ s.queued →
      s'.hotplug.running = true ∧ c ∈ s'.queued) : Nests s' := by
  have hup : ∀ {c p}, Up s' c p → Up s c p := by
    rintro c p ⟨hc, hp⟩
    exact ⟨hcreated c hc, (hparent c hc).symm.trans hp⟩
  constructor
  · intro hscheduled
    obtain ⟨hold, hactive, hmemory⟩ := hsynced hscheduled
    rw [hcpus, hmems, hactive, hmemory]
    exact h.synced hold
  · intro c p hcp hp
    rw [hcpus, hcpus, hcpus]
    exact h.cpus c p (hup hcp) hp
  · intro c p hcp
    rw [hmems, hmems, hmems]
    exact h.mems c p (hup hcp)
  · intro c hc
    rw [Clean, hcpus, hcpus, hmems, hmems]
    exact (h.clean c (hcreated c hc)).imp_right (hwork c hc)

/-- An event that changes the masks of one cpuset below the root. -/
theorem Nests.changed (h : Nests s) (htree : Tree s) {c : CsId} (htop : c ≠ topCpuset)
    (hcreated : s'.created = s.created)
    (hparent : ∀ d, (s'.cpusets d).parent = (s.cpusets d).parent)
    (hother : ∀ d, d ≠ c → (s'.cpusets d).cpusAllowed = (s.cpusets d).cpusAllowed ∧
      (s'.cpusets d).memsAllowed = (s.cpusets d).memsAllowed)
    (hsynced : s'.hotplug.scheduled = s.hotplug.scheduled ∧
      s'.cpuActiveMask = s.cpuActiveMask ∧ s'.nodeMemory = s.nodeMemory)
    (hwork : ∀ d, d ≠ c → s.hotplug.running = true ∧ d ∈ s.queued →
      s'.hotplug.running = true ∧ d ∈ s'.queued)
    (hclean : c ∈ s.created → Clean s' c)
    (hbelow : ∀ p, Up s c p →
      (p ≠ topCpuset → (s'.cpusets c).cpusAllowed ⊆ (s.cpusets p).cpusAllowed ∨
        Disjoint (s'.cpusets c).cpusAllowed (s.cpusets topCpuset).cpusAllowed) ∧
      ∀ m ∈ (s'.cpusets c).memsAllowed, m ∈ (s.cpusets topCpuset).memsAllowed →
        m ∈ (s.cpusets p).memsAllowed)
    (habove : ∀ d, Up s d c →
      ((s.cpusets d).cpusAllowed ⊆ (s'.cpusets c).cpusAllowed ∨
        Disjoint (s.cpusets d).cpusAllowed (s.cpusets topCpuset).cpusAllowed) ∧
      ∀ m ∈ (s.cpusets d).memsAllowed, m ∈ (s.cpusets topCpuset).memsAllowed →
        m ∈ (s'.cpusets c).memsAllowed) : Nests s' := by
  have hroot := hother topCpuset htop.symm
  have hup : ∀ {d p}, Up s' d p → Up s d p := by
    rintro d p ⟨hd, hp⟩
    exact ⟨hcreated ▸ hd, (hparent d).symm.trans hp⟩
  constructor
  · intro hscheduled
    rw [hroot.1, hroot.2, hsynced.2.1, hsynced.2.2]
    exact h.synced (hsynced.1 ▸ hscheduled)
  · intro d p hdp hp
    rw [hroot.1]
    by_cases hd : d = c
    · subst hd
      rw [(hother p (htree.lt (hup hdp)).ne).1]
      exact (hbelow p (hup hdp)).1 hp
    · rw [(hother d hd).1]
      by_cases hpc : p = c
      · subst hpc
        exact (habove d (hup hdp)).1
      · rw [(hother p hpc).1]
        exact h.cpus d p (hup hdp) hp
  · intro d p hdp
    rw [hroot.2]
    by_cases hd : d = c
    · subst hd
      rw [(hother p (htree.lt (hup hdp)).ne).2]
      exact (hbelow p (hup hdp)).2
    · rw [(hother d hd).2]
      by_cases hpc : p = c
      · subst hpc
        exact (habove d (hup hdp)).2
      · rw [(hother p hpc).2]
        exact h.mems d p (hup hdp)
  · intro d hd
    rw [hcreated] at hd
    by_cases hdc : d = c
    · subst hdc
      exact .inl (hclean hd)
    · rw [Clean, (hother d hdc).1, (hother d hdc).2, hroot.1, hroot.2]
      exact (h.clean d hd).imp_right (hwork d hdc)

variable [DecidableEq Cpu] [DecidableEq Node]

/-- A write of masks, made while no work is outstanding. -/
theorem Nests.written (h : Nests s) (hk : Kept s) (hrest : Settled s) {c : CsId}
    {trial : Cpuset Cpu Node} {file : Option FileType} (hw : Written s c trial file) (htop : c ≠ topCpuset)
    (d : SchedDomains Cpu) : Nests ((s.update c trial).setDomains d) := by
  have hsync := h.synced hrest.1
  have hidle : ¬ s.hotplug.running = true := by
    rw [hrest.2.1]
    exact Bool.false_ne_true
  have hother : ∀ e, e ≠ c → (s.update c trial).cpusets e = s.cpusets e :=
    fun e he => System.update_cpusets_of_ne s trial he
  have hself : (s.update c trial).cpusets c = trial := System.update_cpusets_self s c trial
  have hframed := (Changed.written trial d hw).framed
  have hclean : c ∈ s.created → Clean s c :=
    fun hc => (h.clean c hc).resolve_right fun hwork => hidle hwork.1
  refine h.changed hk.toTree htop rfl hframed.parent (fun e he => ?_) ⟨rfl, rfl, rfl⟩
    (fun e _ hwork => hwork) (fun hc => ?_) (fun p hup => ?_) (fun e hup => ?_)
  · rw [System.setDomains_cpusets, hother e he]
    exact ⟨rfl, rfl⟩
  · rw [Clean, System.setDomains_cpusets, hself, hother topCpuset htop.symm]
    constructor
    · rcases hw.mems with hsame | ⟨-, -, hsub⟩
      · rw [hsame]
        exact (hclean hc).1
      · rwa [hsync.2]
    · rcases hw.cpus with hsame | ⟨-, -, hsub⟩
      · rw [hsame]
        exact (hclean hc).2
      · rw [hsync.1]
        by_cases hempty : trial.cpusAllowed = ∅
        · exact .inl hempty
        · refine .inr fun hdisjoint => hempty ?_
          rw [← Finset.inter_eq_left.2 hsub]
          exact Finset.disjoint_iff_inter_eq_empty.1 hdisjoint
  · have hsub := isCpusetSubset_iff.1 (hw.parent htop)
    rw [Tree.parentId hup] at hsub
    rw [System.setDomains_cpusets, hself]
    exact ⟨fun _ => .inl hsub.1, fun m hm _ => hsub.2.1 hm⟩
  · have hsub := isCpusetSubset_iff.1 (hw.children e (hk.mem_onlineChildren.2 hup))
    rw [System.setDomains_cpusets, hself]
    exact ⟨.inl hsub.1, fun m hm _ => hsub.2.1 hm⟩

theorem Nests.call (h : Nests s) (hk : Kept s) {c : CsId} {file : Option FileType}
    (hchange : Changed s c file s') (hrest : file ≠ none → Settled s) : Nests s' := by
  have hframed := hchange.framed
  have hsame : (∀ e, (s'.cpusets e).cpusAllowed = (s.cpusets e).cpusAllowed) →
      (∀ e, (s'.cpusets e).memsAllowed = (s.cpusets e).memsAllowed) → Nests s' := by
    intro hcpus hmems
    refine h.same (fun e he => hframed.created ▸ he) (fun e _ => hframed.parent e) hcpus hmems ?_ ?_
    · rw [hframed.hotplug]
      exact fun hs => ⟨hs, hframed.active, hframed.memory⟩
    · rw [hframed.hotplug, hframed.queued]
      exact fun _ _ hwork => hwork
  cases hchange with
  | unchanged => exact h
  | written trial d hw =>
      by_cases hcpus : trial.cpusAllowed = (s.cpusets c).cpusAllowed
      · by_cases hmems : trial.memsAllowed = (s.cpusets c).memsAllowed
        · refine hsame (fun e => ?_) (fun e => ?_) <;>
          · rw [System.setDomains_cpusets, update_apply]
            split
            · rename_i he
              rw [he]
              assumption
            · rfl
        · obtain ⟨hmask, htop, -⟩ := hw.mems.resolve_left hmems
          exact h.written hk (hrest (hmask ▸ Option.some_ne_none _)) hw htop d
      · obtain ⟨hmask, htop, -⟩ := hw.cpus.resolve_left hcpus
        exact h.written hk (hrest (hmask ▸ Option.some_ne_none _)) hw htop d
  | relaxed level d =>
      refine hsame (fun e => ?_) (fun e => ?_) <;>
      · rw [System.setDomains_cpusets, update_apply]
        split
        · rename_i he
          rw [he]
        · rfl
  | pressure on => exact hsame (fun _ => rfl) (fun _ => rfl)

omit [DecidableEq Cpu] [DecidableEq Node] in
theorem Nests.create (h : Nests s) (hk : Kept s) {p : CsId} (hp : p = topCpuset ∨ p ∈ s.created)
    {clone : Bool} (hrest : clone = true → Settled s) : Nests (create s p clone) := by
  obtain ⟨cs, hf, heq⟩ := create_eq hk.toTree hp clone
  rw [heq]
  have hpn : p < s.nextId := by
    rcases hp with rfl | hp
    · exact hk.rootYoung
    · exact hk.young p hp
  have hold : ∀ {d}, d < s.nextId → (s.update s.nextId cs).cpusets d = s.cpusets d := fun hd =>
    System.update_cpusets_of_ne s cs hd.ne
  have hnew : (s.update s.nextId cs).cpusets s.nextId = cs := System.update_cpusets_self s _ cs
  have hroot := hold hk.rootYoung
  -- The new cpuset has no more than its parent, and is clean.
  have hcs : cs.cpusAllowed ⊆ (s.cpusets p).cpusAllowed ∧
      cs.memsAllowed ⊆ (s.cpusets p).memsAllowed ∧
      cs.memsAllowed ⊆ (s.cpusets topCpuset).memsAllowed ∧
      (cs.cpusAllowed = ∅ ∨ ¬ Disjoint cs.cpusAllowed (s.cpusets topCpuset).cpusAllowed) := by
    rcases hf.masks with ⟨hcpus, hmems⟩ | ⟨hclone, hcpus, hmems, -⟩
    · rw [hcpus, hmems]
      exact ⟨Finset.empty_subset _, Finset.empty_subset _, Finset.empty_subset _, .inl rfl⟩
    · rw [hcpus, hmems]
      refine ⟨subset_rfl, subset_rfl, ?_⟩
      rcases hp with rfl | hp
      · refine ⟨subset_rfl, .inr ?_⟩
        rw [disjoint_self, Finset.bot_eq_empty]
        exact hk.topCpus
      · refine (h.clean p hp).resolve_right fun hwork => ?_
        rw [(hrest hclone).2.1] at hwork
        cases hwork.1
  have hup : ∀ {d q}, d ∈ s.created ++ [s.nextId] →
      ((s.update s.nextId cs).cpusets d).parent = some q →
      d = s.nextId ∧ q = p ∨ d < s.nextId ∧ Up s d q := by
    intro d q hd hq
    rcases List.mem_append.1 hd with hd | hd
    · have hlt := hk.young d hd
      rw [hold hlt] at hq
      exact .inr ⟨hlt, hd, hq⟩
    · obtain rfl := List.mem_singleton.1 hd
      rw [hnew, hf.parent] at hq
      exact .inl ⟨rfl, (Option.some.inj hq).symm⟩
  constructor
  · change s.hotplug.scheduled = false →
      ((s.update s.nextId cs).cpusets topCpuset).cpusAllowed = s.cpuActiveMask ∧
        ((s.update s.nextId cs).cpusets topCpuset).memsAllowed = s.nodeMemory
    rw [hroot]
    exact h.synced
  · rintro d q ⟨hd, hdq⟩ hq
    change ((s.update s.nextId cs).cpusets d).cpusAllowed ⊆
        ((s.update s.nextId cs).cpusets q).cpusAllowed ∨
      Disjoint ((s.update s.nextId cs).cpusets d).cpusAllowed
        ((s.update s.nextId cs).cpusets topCpuset).cpusAllowed
    rw [hroot]
    rcases hup hd hdq with ⟨rfl, rfl⟩ | ⟨hdn, hdq⟩
    · rw [hnew, hold hpn]
      exact .inl hcs.1
    · rw [hold hdn, hold ((hk.lt hdq).trans hdn)]
      exact h.cpus d q hdq hq
  · rintro d q ⟨hd, hdq⟩
    change ∀ m ∈ ((s.update s.nextId cs).cpusets d).memsAllowed,
      m ∈ ((s.update s.nextId cs).cpusets topCpuset).memsAllowed →
        m ∈ ((s.update s.nextId cs).cpusets q).memsAllowed
    rw [hroot]
    rcases hup hd hdq with ⟨rfl, rfl⟩ | ⟨hdn, hdq⟩
    · rw [hnew, hold hpn]
      exact fun m hm _ => hcs.2.1 hm
    · rw [hold hdn, hold ((hk.lt hdq).trans hdn)]
      exact h.mems d q hdq
  · intro d hd
    change ((s.update s.nextId cs).cpusets d).memsAllowed ⊆
        ((s.update s.nextId cs).cpusets topCpuset).memsAllowed ∧
      (((s.update s.nextId cs).cpusets d).cpusAllowed = ∅ ∨
        ¬ Disjoint ((s.update s.nextId cs).cpusets d).cpusAllowed
          ((s.update s.nextId cs).cpusets topCpuset).cpusAllowed) ∨
      s.hotplug.running = true ∧ d ∈ s.queued
    rw [hroot]
    rcases List.mem_append.1 hd with hd | hd
    · rw [hold (hk.young d hd)]
      exact h.clean d hd
    · obtain rfl := List.mem_singleton.1 hd
      rw [hnew]
      exact .inl hcs.2.2

theorem Nests.remove (h : Nests s) (hk : Kept s) {c : CsId} {mem : Memory}
    (heq : remove s c mem = some s') : Nests s' := by
  obtain ⟨t, hchange, ht⟩ := remove_eq hk.toTree c mem
  obtain rfl := Option.some.inj (ht.symm.trans heq)
  have hnests := h.call hk hchange (fun hne => absurd rfl hne)
  have hcs : ∀ d, ((t.update c ((t.cpusets c).setFlag .online false)).cpusets d).parent =
      (t.cpusets d).parent ∧
      ((t.update c ((t.cpusets c).setFlag .online false)).cpusets d).cpusAllowed =
        (t.cpusets d).cpusAllowed ∧
      ((t.update c ((t.cpusets c).setFlag .online false)).cpusets d).memsAllowed =
        (t.cpusets d).memsAllowed := by
    intro d
    rw [update_apply]
    split
    · rename_i hd
      rw [hd]
      exact ⟨rfl, rfl, rfl⟩
    · exact ⟨rfl, rfl, rfl⟩
  exact hnests.same (fun d hd => List.mem_of_mem_erase hd) (fun d _ => (hcs d).1)
    (fun d => (hcs d).2.1) (fun d => (hcs d).2.2) (fun hs => ⟨hs, rfl, rfl⟩)
    (fun d _ hwork => hwork)

theorem Nests.hotplugWork (h : Nests s) (hk : Kept s) (hrest : s.hotplug.running = false) :
    Nests (cpusetHotplugWorkfn s) := by
  have hproper := h.proper hrest
  have hclean : ∀ c ∈ s.created, Clean s c := by
    intro c hc
    refine (h.clean c hc).resolve_right fun hwork => ?_
    rw [hrest] at hwork
    cases hwork.1
  obtain ⟨q, heq, -, -, hgrow⟩ := cpusetHotplugWorkfn_eq hk.toTree
  rw [heq]
  obtain ⟨top, htop⟩ : ∃ top, top = { s.cpusets topCpuset with
      cpusAllowed := s.cpuActiveMask, memsAllowed := s.nodeMemory } := ⟨_, rfl⟩
  rw [← htop]
  have hroot : (s.update topCpuset top).cpusets topCpuset = top := System.update_cpusets_self ..
  have hother : ∀ {c}, c ≠ topCpuset → (s.update topCpuset top).cpusets c = s.cpusets c :=
    fun hc => System.update_cpusets_of_ne s top hc
  have hcpus : top.cpusAllowed = s.cpuActiveMask := by rw [htop]
  have hmems : top.memsAllowed = s.nodeMemory := by rw [htop]
  have hup : ∀ {c p}, c ∈ s.created → ((s.update topCpuset top).cpusets c).parent = some p →
      Up s c p := by
    intro c p hc hp
    rw [hother (hk.ne_top hc)] at hp
    exact ⟨hc, hp⟩
  constructor
  · intro
    change ((s.update topCpuset top).cpusets topCpuset).cpusAllowed = s.cpuActiveMask ∧
      ((s.update topCpuset top).cpusets topCpuset).memsAllowed = s.nodeMemory
    rw [hroot]
    exact ⟨hcpus, hmems⟩
  · rintro c p ⟨hc, hp⟩ hne
    change ((s.update topCpuset top).cpusets c).cpusAllowed ⊆
        ((s.update topCpuset top).cpusets p).cpusAllowed ∨ _
    rw [hother (hk.ne_top hc), hother hne]
    exact .inl (hproper.cpus c p (hup hc hp) hne)
  · rintro c p ⟨hc, hp⟩
    change ∀ m ∈ ((s.update topCpuset top).cpusets c).memsAllowed,
      m ∈ ((s.update topCpuset top).cpusets topCpuset).memsAllowed →
        m ∈ ((s.update topCpuset top).cpusets p).memsAllowed
    rw [hother (hk.ne_top hc)]
    intro m hm htopm
    by_cases hne : p = topCpuset
    · rwa [hne]
    · rw [hother hne]
      exact hproper.mems c p (hup hc hp) hm
  · intro c hc
    change c ∈ s.created at hc
    change ((s.update topCpuset top).cpusets c).memsAllowed ⊆
        ((s.update topCpuset top).cpusets topCpuset).memsAllowed ∧
      (((s.update topCpuset top).cpusets c).cpusAllowed = ∅ ∨
        ¬ Disjoint ((s.update topCpuset top).cpusets c).cpusAllowed
          ((s.update topCpuset top).cpusets topCpuset).cpusAllowed) ∨ true = true ∧ c ∈ q
    rcases hgrow with ⟨hgrowCpus, hgrowMems⟩ | hqueued
    · rw [hroot, hother (hk.ne_top hc), hcpus, hmems]
      obtain ⟨hcmems, hccpus⟩ := hclean c hc
      exact .inl ⟨hcmems.trans hgrowMems, hccpus.imp_right fun hmeets hdisjoint =>
        hmeets (hdisjoint.mono_right hgrowCpus)⟩
    · exact .inr ⟨rfl, hqueued c hc⟩

theorem Nests.propagate (h : Nests s) (hk : Kept s) {c : CsId} {rest : List CsId}
    (hq : s.queued = c :: rest) :
    Nests (cpusetPropagateHotplugWorkfn { s with queued := rest } c) := by
  obtain ⟨cs, hcs⟩ : ∃ cs, cs = trimmed (s.cpusets topCpuset) (s.cpusets c) := ⟨_, rfl⟩
  have heq : cpusetPropagateHotplugWorkfn { s with queued := rest } c =
      { s.update c cs with queued := rest, emptied := if cs.isEmpty then some c else none } := by
    rw [hcs]
    rfl
  have hsame : SameTree s (s.update c cs) := sameTree_update (by rw [hcs]; rfl) (by rw [hcs]; rfl)
  have hself : (s.update c cs).cpusets c = cs := System.update_cpusets_self s c cs
  have hother : ∀ d, d ≠ c → (s.update c cs).cpusets d = s.cpusets d :=
    fun d hd => System.update_cpusets_of_ne s cs hd
  have hrest : ∀ d, d ≠ c → d ∈ s.queued → d ∈ rest := by
    intro d hd hmem
    rw [hq] at hmem
    exact (List.mem_cons.1 hmem).resolve_left hd
  have hcpus := hcs ▸ trimmed_cpus (s.cpusets topCpuset) (s.cpusets c)
  have hmems := hcs ▸ trimmed_mems (s.cpusets topCpuset) (s.cpusets c)
  rw [heq]
  by_cases htop : c = topCpuset
  · subst htop
    have hunchanged := hcs ▸ trimmed_self _ hk.topCpus
    have hmasks : ∀ d, ((s.update topCpuset cs).cpusets d).cpusAllowed = (s.cpusets d).cpusAllowed ∧
        ((s.update topCpuset cs).cpusets d).memsAllowed = (s.cpusets d).memsAllowed := by
      intro d
      rw [update_apply]
      split
      · rename_i hd
        exact hd ▸ hunchanged
      · exact ⟨rfl, rfl⟩
    exact h.same (fun d hd => hd) (fun d _ => hsame.parent d) (fun d => (hmasks d).1)
      (fun d => (hmasks d).2) (fun hs => ⟨hs, rfl, rfl⟩)
      (fun d hd hwork => ⟨hwork.1, hrest d (hk.ne_top hd) hwork.2⟩)
  · refine h.changed hk.toTree htop rfl hsame.parent (fun d hd => ?_) ⟨rfl, rfl, rfl⟩
      (fun d hd hwork => ⟨hwork.1, hrest d hd hwork.2⟩) (fun hc => ?_) (fun p hup => ?_)
      (fun d hup => ?_)
    · exact ⟨congrArg Cpuset.cpusAllowed (hother d hd), congrArg Cpuset.memsAllowed (hother d hd)⟩
    · change ((s.update c cs).cpusets c).memsAllowed ⊆
          ((s.update c cs).cpusets topCpuset).memsAllowed ∧
        (((s.update c cs).cpusets c).cpusAllowed = ∅ ∨
          ¬ Disjoint ((s.update c cs).cpusets c).cpusAllowed
            ((s.update c cs).cpusets topCpuset).cpusAllowed)
      rw [hself, hother topCpuset (Ne.symm htop), hmems, hcpus]
      refine ⟨Finset.inter_subset_right, ?_⟩
      split
      · exact .inl rfl
      · rename_i hmeets
        exact .inr hmeets
    · change (p ≠ topCpuset → ((s.update c cs).cpusets c).cpusAllowed ⊆ _ ∨
          Disjoint ((s.update c cs).cpusets c).cpusAllowed _) ∧
        ∀ m ∈ ((s.update c cs).cpusets c).memsAllowed, _
      rw [hself, hmems, hcpus]
      constructor
      · intro hp
        split
        · exact .inl (Finset.empty_subset _)
        · exact h.cpus c p hup hp
      · exact fun m hm hroot => h.mems c p hup m (Finset.mem_inter.1 hm).1 hroot
    · change (_ ⊆ ((s.update c cs).cpusets c).cpusAllowed ∨ _) ∧
        ∀ m ∈ _, _ → m ∈ ((s.update c cs).cpusets c).memsAllowed
      rw [hself, hmems, hcpus]
      constructor
      · rcases h.cpus d c hup htop with hsub | hgone
        · split
          · rename_i hdisjoint
            exact .inr (hdisjoint.mono_left hsub)
          · exact .inl hsub
        · exact .inr hgone
      · exact fun m hm hroot => Finset.mem_inter.2 ⟨h.mems d c hup m hm hroot, hroot⟩

omit [DecidableEq Cpu] [DecidableEq Node] in
/-- Changes of the counts, of the queue and of the scheduler's domains do not matter. -/
theorem Nests.aside (h : Nests s) (hcreated : s'.created = s.created)
    (hcs : ∀ c, ∃ n attach, s'.cpusets c =
      { s.cpusets c with taskCount := n, attachInProgress := attach })
    (hhotplug : s'.hotplug = s.hotplug) (hactive : s'.cpuActiveMask = s.cpuActiveMask)
    (hmemory : s'.nodeMemory = s.nodeMemory) (hqueued : ∀ c ∈ s.queued, c ∈ s'.queued) :
    Nests s' := by
  refine h.same (fun c hc => hcreated ▸ hc) (fun c _ => ?_) (fun c => ?_) (fun c => ?_) ?_ ?_
  · obtain ⟨n, attach, hc⟩ := hcs c
    rw [hc]
  · obtain ⟨n, attach, hc⟩ := hcs c
    rw [hc]
  · obtain ⟨n, attach, hc⟩ := hcs c
    rw [hc]
  · rw [hhotplug]
    exact fun hs => ⟨hs, hactive, hmemory⟩
  · rw [hhotplug]
    exact fun c _ hwork => ⟨hwork.1, hqueued c hwork.2⟩

omit [DecidableEq Cpu] [DecidableEq Node]

/-- Only the counts of the cpusets differ. -/
def SameButCounts (s s' : System Cpu Node) : Prop :=
  ∀ c, ∃ n attach, s'.cpusets c =
    { s.cpusets c with taskCount := n, attachInProgress := attach }

theorem SameButCounts.trans {s'' : System Cpu Node} (h : SameButCounts s s')
    (h' : SameButCounts s' s'') : SameButCounts s s'' := by
  intro c
  obtain ⟨n, attach, hc⟩ := h c
  obtain ⟨n', attach', hc'⟩ := h' c
  exact ⟨n', attach', by rw [hc', hc]⟩

theorem sameButCounts_update {c : CsId} {cs : Cpuset Cpu Node}
    (hcs : ∃ n attach, cs = { s.cpusets c with taskCount := n, attachInProgress := attach }) :
    SameButCounts s (s.update c cs) := by
  intro d
  rw [update_apply]
  split
  · rename_i hd
    obtain ⟨n, attach, hcs⟩ := hcs
    exact ⟨n, attach, by rw [hcs, hd]⟩
  · exact ⟨_, _, rfl⟩

theorem sameButCounts_move (s : System Cpu Node) (src dst : CsId) (n : Nat) :
    SameButCounts s (moveTasks s src dst n) :=
  (sameButCounts_update ⟨_, _, rfl⟩).trans (sameButCounts_update ⟨_, _, rfl⟩)

theorem schedule_queued (s : System Cpu Node) (c : CsId) :
    ∃ q, scheduleCpusetPropagateHotplug s c = { s with queued := q } ∧
      ∀ d, d ∈ q ↔ d ∈ s.queued ∨ d = c := by
  obtain ⟨q, hq, hmem⟩ := foldl_schedule [c] s
  exact ⟨q, hq, fun d => by rw [hmem, List.mem_singleton]⟩

variable [DecidableEq Cpu] [DecidableEq Node]

theorem Nests.attach (h : Nests s) (src c : CsId) (n : Nat) :
    Nests (cpusetAttach (moveTasks s src c n) c) := by
  have hcounts : SameButCounts s (cpusetCancelAttach (moveTasks s src c n) c) :=
    (sameButCounts_move s src c n).trans (sameButCounts_update ⟨_, _, rfl⟩)
  rw [cpusetAttach]
  split
  · obtain ⟨q, hq, hmem⟩ := schedule_queued (cpusetCancelAttach (moveTasks s src c n) c) c
    rw [hq]
    exact h.aside rfl hcounts rfl rfl rfl fun d hd => (hmem d).2 (.inl hd)
  · exact h.aside rfl hcounts rfl rfl rfl fun d hd => hd

theorem Nests.transfer (h : Nests s) {c : CsId} {moved : Bool}
    (heq : removeTasksInEmptyCpuset s c moved = some s') : Nests s' := by
  rw [removeTasksInEmptyCpuset, Option.map_eq_some_iff] at heq
  obtain ⟨p, -, rfl⟩ := heq
  cases moved with
  | true =>
      exact h.aside rfl (sameButCounts_move s c p _) rfl rfl rfl fun d hd => hd
  | false => exact h.aside rfl (fun d => ⟨_, _, rfl⟩) rfl rfl rfl fun d hd => hd

omit [DecidableEq Node] in
theorem hotplugDone_eq (h : Tree s) {mem : Memory} (heq : hotplugDone s mem = some s') :
    ∃ d, s' = System.setDomains { s with hotplug := { s.hotplug with running := false } } d := by
  have htree : Tree { s with hotplug := { s.hotplug with running := false } } :=
    ⟨h.nodup, h.root, h.parent, h.rootYoung, h.young, h.online, h.number⟩
  rw [hotplugDone] at heq
  dsimp only at heq
  split at heq
  · obtain ⟨d, hd⟩ := rebuild_returns htree mem.domains
    exact ⟨d, (Option.some.inj (hd.symm.trans heq)).symm⟩
  · exact ⟨s.domains, (Option.some.inj heq).symm⟩

omit [DecidableEq Node] in
theorem Nests.done (h : Nests s) (hk : Kept s) {mem : Memory} (hqueue : s.queued = [])
    (heq : hotplugDone s mem = some s') : Nests s' := by
  have hempty : ∀ c, ¬ c ∈ s.queued := fun c hc => by
    rw [hqueue] at hc
    cases hc
  obtain ⟨d, rfl⟩ := hotplugDone_eq hk.toTree heq
  exact h.same (fun c hc => hc) (fun _ _ => rfl) (fun _ => rfl) (fun _ => rfl)
    (fun hs => ⟨hs, rfl, rfl⟩) (fun c _ hwork => absurd hwork.2 (hempty c))

theorem Nests.next (h : Nests s) (hk : Kept s) {e : Event Cpu Node} (he : Possible s e)
    (hwaited : Waited s e) : Nests (next s e) := by
  obtain ⟨s', hs', -⟩ := hk.handle he
  rw [LineageA1000.Cpusets.next, hs', Option.getD_some]
  have hcall : ∀ {c file result}, Returns s c file result → (file ≠ none → Settled s) →
      result.map Prod.fst = some s' → Nests s' := by
    rintro c file _ ⟨t, r, rfl, hchange, -⟩ hrest heq
    obtain rfl : t = s' := Option.some.inj heq
    exact h.call hk hchange hrest
  cases e with
  | create p clone =>
      obtain rfl := Option.some.inj hs'
      refine h.create hk he fun hclone => ?_
      subst hclone
      exact hwaited
  | remove c mem => exact h.remove hk hs'
  | writeU64 c type val mem =>
      exact hcall (cpusetWriteU64_returns hk.toTree type val mem) (fun hne => absurd rfl hne) hs'
  | writeS64 c type val mem =>
      exact hcall (cpusetWriteS64_returns hk.toTree type val mem) (fun hne => absurd rfl hne) hs'
  | writeResmask c type text mem =>
      exact hcall (cpusetWriteResmask_returns hk.toTree type text mem) (fun _ => hwaited) hs'
  | tasks c n =>
      obtain rfl := Option.some.inj hs'
      exact h.aside rfl (sameButCounts_update ⟨_, _, rfl⟩) rfl rfl rfl fun d hd => hd
  | canAttach c refusal =>
      obtain rfl := Option.some.inj hs'
      rw [cpusetCanAttach]
      split
      · exact h
      split
      · exact h
      · exact h.aside rfl (sameButCounts_update ⟨_, _, rfl⟩) rfl rfl rfl fun d hd => hd
  | cancelAttach c =>
      obtain rfl := Option.some.inj hs'
      exact h.aside rfl (sameButCounts_update ⟨_, _, rfl⟩) rfl rfl rfl fun d hd => hd
  | attach src c n =>
      obtain rfl := Option.some.inj hs'
      exact h.attach src c n
  | setActive mask | setMemory mask =>
      obtain rfl := Option.some.inj hs'
      refine h.same (fun c hc => hc) (fun _ _ => rfl) (fun _ => rfl) (fun _ => rfl) ?_
        (fun c _ hwork => hwork)
      rintro hs
      cases hs
  | hotplugWork =>
      obtain rfl := Option.some.inj hs'
      exact h.hotplugWork hk he.2
  | propagate =>
      cases hq : s.queued with
      | nil => exact absurd hq he.1
      | cons c rest =>
          rw [handle.eq_def] at hs'
          simp only [hq] at hs'
          obtain rfl := Option.some.inj hs'
          exact h.propagate hk hq
  | transfer moved =>
      obtain ⟨c, hc⟩ := Option.ne_none_iff_exists'.1 he
      rw [handle.eq_def] at hs'
      simp only [hc] at hs'
      exact h.transfer hs'
  | hotplugDone mem => exact h.done hk he.2.1 hs'

omit [DecidableEq Cpu] [DecidableEq Node] in
theorem booted_nests (active : Finset Cpu) (memory : Finset Node) (levelMax : Int) (tasks : Nat) :
    Nests (booted active memory levelMax tasks) := by
  refine ⟨fun _ => ⟨rfl, rfl⟩, ?_, ?_, ?_⟩
  · rintro c p ⟨hc, -⟩
    cases hc
  · rintro c p ⟨hc, -⟩
    cases hc
  · rintro c hc
    cases hc

end Nests

/-! ### Runs -/

section Runs

variable [DecidableEq Cpu] [DecidableEq Node] {active : Finset Cpu} {memory : Finset Node}
  {levelMax : Int} {tasks : Nat} {events : List (Event Cpu Node)}

/-- The invariant of the runs in which writes of masks have waited. -/
theorem nests_always (hactive : active ≠ ∅) (hmemory : memory ≠ ∅)
    (hevents : Run.EachStep next (fun s e => Possible s e ∧ Waited s e)
      (booted active memory levelMax tasks) events) :
    Run.Always next (fun s => Kept s ∧ Nests s) (booted active memory levelMax tasks) events :=
  Run.always_of_eachStep
    (fun _ _ hs he => ⟨hs.1.next he.1, hs.2.next hs.1 he.1 he.2⟩)
    ⟨booted_kept hactive hmemory _ _, booted_nests _ _ _ _⟩ hevents

/-- In a run from the boot in which writes of masks have waited for hotplug, the masks are proper in
every state in which no hotplug work goes round. -/
theorem proper_always (hactive : active ≠ ∅) (hmemory : memory ≠ ∅)
    (hevents : Run.EachStep next (fun s e => Possible s e ∧ Waited s e)
      (booted active memory levelMax tasks) events) :
    Run.Always next (fun s => s.hotplug.running = false → Proper s)
      (booted active memory levelMax tasks) events :=
  (nests_always hactive hmemory hevents).mono fun _ hs hrest => hs.2.proper hrest

theorem proper_always_screenCycle :
    Run.Always next (fun s => s.hotplug.running = false → Proper s)
      (booted {0, 1, 2, 3} {0} 4 100) screenCycle :=
  proper_always (by decide) (by decide) (by decide)

omit [DecidableEq Cpu] [DecidableEq Node] in
theorem Proper.nested {s : System Cpu Node} (h : Proper s) : Nested s := h.cpus

end Runs

end LineageA1000.Cpusets
