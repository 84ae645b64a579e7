import LineageA1000.Caps.Ambient
import LineageA1000.Caps.SecureExec

/-!
# What a task can ever get

Runs of system calls, with any arguments and any executed files. A capability that is in none of the
permitted, inheritable, bounding and ambient sets is gone for good. Under `NO_NEW_PRIVS` the
permitted and ambient sets together never grow, and without `CAP_SETUID` in them the uids are always
among the first four. The same holds of the sets once `SECURE_NOROOT` is locked and no executed file
carries capabilities; a locked securebit stays locked and stays what it is.
-/

namespace LineageA1000.Caps

open KernelCap

/-- The capabilities a task has or may come to have. -/
def reach (c : Cred) : Set (Fin 2 × Fin 32) :=
  c.capPermitted.toSet ∪ c.capInheritable.toSet ∪ c.capBset.toSet ∪ c.capAmbient.toSet

/-- The capabilities a task has, or has again at the next exec. -/
def held (c : Cred) : Set (Fin 2 × Fin 32) := c.capPermitted.toSet ∪ c.capAmbient.toSet

/-- `pE ⊆ pP`. -/
def EffectiveHeld (c : Cred) : Prop := c.capEffective.toSet ⊆ c.capPermitted.toSet

def uids (c : Cred) : Set Kuid := {c.uid, c.euid, c.suid, c.fsuid}

/-! ### Calls other than execve -/

/-- What every call but `execve` keeps to. -/
structure Shrinks (new old : Cred) : Prop where
  permitted : new.capPermitted.toSet ⊆ old.capPermitted.toSet
  inheritable : new.capInheritable.toSet ⊆ old.capInheritable.toSet ∪ old.capBset.toSet
  bset : new.capBset.toSet ⊆ old.capBset.toSet
  ambient : new.capAmbient.toSet ⊆ old.capAmbient.toSet ∪ old.capPermitted.toSet
  effective : EffectiveHeld old → EffectiveHeld new

theorem Shrinks.refl (c : Cred) : Shrinks c c :=
  ⟨subset_rfl, Set.subset_union_left, subset_rfl, Set.subset_union_left, id⟩

/-- Both answers of a test shrink the sets. -/
theorem shrinks_ite {p : Prop} [Decidable p] {a b : Int × Cred} {old : Cred}
    (ha : p → Shrinks a.2 old) (hb : ¬ p → Shrinks b.2 old) :
    Shrinks (if p then a else b).2 old := by
  by_cases hp : p
  · rw [if_pos hp]
    exact ha hp
  · rw [if_neg hp]
    exact hb hp

/-- Credentials that differ in other fields only. -/
theorem Shrinks.congr {new old : Cred} (hP : new.capPermitted = old.capPermitted)
    (hI : new.capInheritable = old.capInheritable) (hB : new.capBset = old.capBset)
    (hA : new.capAmbient = old.capAmbient) (hE : new.capEffective = old.capEffective) :
    Shrinks new old := by
  refine ⟨?_, ?_, ?_, ?_, ?_⟩
  · rw [hP]
  · rw [hI]
    exact Set.subset_union_left
  · rw [hB]
  · rw [hA]
    exact Set.subset_union_left
  · rw [EffectiveHeld, EffectiveHeld, hE, hP]
    exact id

theorem shrinks_capCapset (old : Cred) (effective inheritable permitted : KernelCap) :
    Shrinks (capCapset old effective inheritable permitted).2 old := by
  rw [capCapset]
  refine shrinks_ite (fun _ => .refl old) fun _ => ?_
  refine shrinks_ite (fun _ => .refl old) fun hI => ?_
  refine shrinks_ite (fun _ => .refl old) fun hP => ?_
  refine shrinks_ite (fun _ => .refl old) fun hE => ?_
  rw [not_not, capIssubset_iff] at hI hP hE
  rw [toSet_capCombine] at hI
  refine ⟨hP, hI, subset_rfl, ?_, fun _ => hE⟩
  rw [toSet_capIntersect]
  exact Set.inter_subset_left.trans Set.subset_union_left

theorem shrinks_capTaskPrctl (env : Env) (old : Cred) (option arg2 : Word) :
    Shrinks (capTaskPrctl env old option arg2).2 old := by
  have hbits : ∀ bits, Shrinks { old with securebits := bits } old :=
    fun _ => .congr rfl rfl rfl rfl rfl
  rw [capTaskPrctl]
  refine shrinks_ite (fun _ => .refl old) fun _ => ?_
  refine shrinks_ite (fun _ => ?_) fun _ => ?_
  · split <;> exact .refl old
  refine shrinks_ite (fun _ => ?_) fun _ => ?_
  · rw [capPrctlDrop]
    split
    · exact .refl old
    split
    · refine ⟨subset_rfl, Set.subset_union_left, ?_, Set.subset_union_left, id⟩
      rw [toSet_capLower]
      exact Set.sdiff_subset
    · exact .refl old
  refine shrinks_ite (fun _ => ?_) fun _ => ?_
  · exact shrinks_ite (fun _ => .refl old) fun _ => hbits _
  refine shrinks_ite (fun _ => .refl old) fun _ => ?_
  refine shrinks_ite (fun _ => .refl old) fun _ => ?_
  refine shrinks_ite (fun _ => ?_) fun _ => .refl old
  refine shrinks_ite (fun _ => .refl old) fun _ => ?_
  refine shrinks_ite (fun _ => .refl old) fun _ => ?_
  exact shrinks_ite (fun _ => hbits _) fun _ => hbits _

theorem shrinks_prctlCapAmbient (env : Env) (old : Cred) (arg2 arg3 arg4 arg5 : Word) :
    Shrinks (prctlCapAmbient env old arg2 arg3 arg4 arg5).2 old := by
  have hsmaller : ∀ ambient : KernelCap,
      ambient.toSet ⊆ old.capAmbient.toSet ∪ old.capPermitted.toSet →
      Shrinks { old with capAmbient := ambient } old :=
    fun _ h => ⟨subset_rfl, Set.subset_union_left, subset_rfl, h, id⟩
  rw [prctlCapAmbient]
  refine shrinks_ite (fun _ => ?_) fun _ => ?_
  · refine shrinks_ite (fun _ => .refl old) fun _ => ?_
    refine shrinks_ite (fun _ => .refl old) fun _ => hsmaller _ ?_
    rw [toSet_capClear]
    exact Set.empty_subset _
  split
  case isFalse => exact .refl old
  case isTrue hvalid =>
    dsimp only
    refine shrinks_ite (fun _ => .refl old) fun _ => ?_
    refine shrinks_ite (fun _ => .refl old) fun _ => ?_
    refine shrinks_ite (fun _ => .refl old) fun hraised => ?_
    refine shrinks_ite (fun _ => .refl old) fun _ => ?_
    refine shrinks_ite (fun hraise => hsmaller _ ?_) fun _ => hsmaller _ ?_
    · -- A capability is raised only where it is permitted.
      simp only [not_and, not_or, not_not] at hraised
      rw [toSet_capRaise]
      exact Set.union_subset_union_right _
        (Set.singleton_subset_iff.2 ((capRaised_iff _ _).1 (hraised hraise).1))
    · rw [toSet_capLower]
      exact Set.sdiff_subset.trans Set.subset_union_left

theorem shrinks_sysPrctl (env : Env) (old : Cred) (option arg2 arg3 arg4 arg5 : Word) :
    Shrinks (sysPrctl env old option arg2 arg3 arg4 arg5) old := by
  simp only [sysPrctl]
  split
  · exact shrinks_capTaskPrctl env old option arg2
  split
  · exact shrinks_prctlCapAmbient env old arg2 arg3 arg4 arg5
  · exact .refl old

/-! ### set*uid -/

theorem capTaskFixSetuid_keeps (new old : Cred) (flags : SetidFlags) :
    (capTaskFixSetuid new old flags).capBset = new.capBset ∧
      (capTaskFixSetuid new old flags).securebits = new.securebits ∧
      uids (capTaskFixSetuid new old flags) = uids new := by
  cases flags <;> simp only [capTaskFixSetuid, capEmulateSetxuid] <;> repeat' split
  all_goals exact ⟨rfl, rfl, rfl⟩

theorem effectiveHeld_ite {p : Prop} [Decidable p] {a b : Cred} (ha : EffectiveHeld a)
    (hb : EffectiveHeld b) : EffectiveHeld (if p then a else b) := by
  split
  · exact ha
  · exact hb

theorem effectiveHeld_clear (c : Cred) : EffectiveHeld { c with capEffective := capClear } := by
  rw [EffectiveHeld, toSet_capClear]
  exact Set.empty_subset _

/-- The fixup clears the effective set, copies the permitted one into it, or takes away and adds
permitted capabilities. -/
theorem effectiveHeld_fixSetuid {new : Cred} (h : EffectiveHeld new) (old : Cred)
    (flags : SetidFlags) : EffectiveHeld (capTaskFixSetuid new old flags) := by
  have hemulate : EffectiveHeld (capEmulateSetxuid new old) := by
    refine effectiveHeld_ite subset_rfl (effectiveHeld_ite (effectiveHeld_clear _) ?_)
    exact effectiveHeld_ite subset_rfl h
  cases flags with
  | re | id | res => exact effectiveHeld_ite h hemulate
  | fs =>
      have hdropped : EffectiveHeld { new with capEffective := capDropFsSet new.capEffective } := by
        rw [EffectiveHeld, capDropFsSet, toSet_capDrop]
        exact Set.sdiff_subset.trans h
      have hraised : ∀ mid, EffectiveHeld mid → EffectiveHeld
          { mid with capEffective := capRaiseFsSet mid.capEffective mid.capPermitted } := by
        intro mid hmid
        rw [EffectiveHeld, capRaiseFsSet, toSet_capCombine, toSet_capIntersect]
        exact Set.union_subset hmid Set.inter_subset_left
      have hmid := effectiveHeld_ite (p := old.fsuid = rootUid ∧ new.fsuid ≠ rootUid) hdropped h
      exact effectiveHeld_ite h (effectiveHeld_ite (hraised _ hmid) hmid)

theorem shrinks_setidCall {old : Cred} {flags : SetidFlags} {asked : Except Int Cred}
    (hasked : ∀ new, asked = .ok new → OnlyUids new old) :
    Shrinks (setidCall old flags asked) old := by
  cases asked with
  | error e => exact .refl old
  | ok new =>
      have huids : OnlyUids new old := hasked new rfl
      have hP : new.capPermitted = old.capPermitted := by rw [huids]
      refine ⟨?_, ?_, ?_, ?_, fun heff => ?_⟩
      · change (capTaskFixSetuid new old flags).capPermitted.toSet ⊆ _
        by_cases hflags : flags = .fs
        · rw [hflags, capTaskFixSetuid_permitted_fs, hP]
        · rw [capTaskFixSetuid_permitted new old hflags]
          split
          · rw [toSet_capClear]
            exact Set.empty_subset _
          · rw [hP]
      · change (capTaskFixSetuid new old flags).capInheritable.toSet ⊆ _
        rw [capTaskFixSetuid_inheritable, huids]
        exact Set.subset_union_left
      · change (capTaskFixSetuid new old flags).capBset.toSet ⊆ _
        rw [(capTaskFixSetuid_keeps new old flags).1, huids]
      · change (capTaskFixSetuid new old flags).capAmbient.toSet ⊆ _
        rw [capTaskFixSetuid_ambient, huids]
        exact Set.subset_union_left
      · refine effectiveHeld_fixSetuid ?_ old flags
        rw [EffectiveHeld, huids]
        exact heff

/-- The step is an `execve`. -/
def CredStep.execFile (s : CredStep) : Option ExecFile :=
  match s.op with
  | .execve _ file => some file
  | _ => none

theorem shrinks_apply (old : Cred) {s : CredStep} (hexec : s.execFile = none) :
    Shrinks (s.apply old) old := by
  obtain ⟨env, op⟩ := s
  cases op with
  | capset e i p => exact shrinks_capCapset old e i p
  | prctl option arg2 arg3 arg4 arg5 => exact shrinks_sysPrctl env old _ _ _ _ _
  | setuid uid => exact shrinks_setidCall fun new h => setuidIds_onlyUids h
  | setreuid ruid euid => exact shrinks_setidCall fun new h => setreuidIds_onlyUids h
  | setresuid ruid euid suid => exact shrinks_setidCall fun new h => setresuidIds_onlyUids h
  | setfsuid uid => exact shrinks_setidCall fun new h => setfsuidIds_onlyUids h
  | execve fileCapsEnabled file => cases hexec

/-! ### execve -/

section Exec

variable {old : Cred} {file : ExecFile}

theorem getFileCaps_spec {fileCapsEnabled : Bool} {bprm : LinuxBinprm} {f : FileCaps}
    (h : getFileCaps fileCapsEnabled bprm = .ok f) :
    f.cred.capPermitted.toSet ⊆ bprm.cred.capBset.toSet ∪ bprm.cred.capInheritable.toSet ∧
      f.cred.capBset = bprm.cred.capBset ∧ f.cred.securebits = bprm.cred.securebits := by
  have hcleared : (bprmClearCaps bprm.cred).capPermitted.toSet ⊆
      bprm.cred.capBset.toSet ∪ bprm.cred.capInheritable.toSet := by
    rw [bprmClearCaps, toSet_capClear]
    exact Set.empty_subset _
  simp only [getFileCaps] at h
  split at h
  · cases h
    exact ⟨hcleared, rfl, rfl⟩
  split at h
  · cases h
    exact ⟨hcleared, rfl, rfl⟩
  split at h
  · simp only [ite_eq_ok_of_error, Except.ok.injEq] at h
    obtain ⟨-, rfl⟩ := h
    exact ⟨hcleared, rfl, rfl⟩
  · simp only [bprmCapsFromVfsCaps, ite_error_eq_ok, Except.ok.injEq] at h
    obtain ⟨-, rfl⟩ := h
    refine ⟨?_, rfl, rfl⟩
    rw [toSet_capCombine, toSet_capIntersect, toSet_capIntersect]
    exact Set.union_subset_union Set.inter_subset_left Set.inter_subset_left

theorem rootFixup_spec (old : Cred) (f : FileCaps) :
    (rootFixup old f).cred.capPermitted.toSet ⊆
        f.cred.capPermitted.toSet ∪ (old.capBset.toSet ∪ old.capInheritable.toSet) ∧
      (rootFixup old f).cred.capBset = f.cred.capBset ∧
      (rootFixup old f).cred.securebits = f.cred.securebits := by
  simp only [rootFixup]
  split
  · exact ⟨Set.subset_union_left, rfl, rfl⟩
  split
  · exact ⟨Set.subset_union_left, rfl, rfl⟩
  split
  · refine ⟨?_, rfl, rfl⟩
    rw [toSet_capCombine]
    exact Set.subset_union_right
  · exact ⟨Set.subset_union_left, rfl, rfl⟩

theorem downgrade_spec (old : Cred) (unsafeBits : BitVec 32) (new : Cred) :
    (downgrade old unsafeBits new).capPermitted.toSet ⊆ new.capPermitted.toSet ∧
      (downgrade old unsafeBits new).capBset = new.capBset ∧
      (downgrade old unsafeBits new).securebits = new.securebits := by
  simp only [downgrade]
  split
  · split <;>
    · refine ⟨?_, rfl, rfl⟩
      rw [toSet_capIntersect]
      exact Set.inter_subset_left
  · exact ⟨subset_rfl, rfl, rfl⟩

/-- What a successful exec leaves of the sets, and of the ids what it sets them to. -/
structure Execs (old : Cred) (file : ExecFile) (f : FileCaps) (new : Cred) : Prop where
  permitted : new.capPermitted.toSet ⊆
    (downgrade old file.unsafeBits (rootFixup old f).cred).capPermitted.toSet ∪
      old.capAmbient.toSet
  inheritable : new.capInheritable = old.capInheritable
  bset : new.capBset = old.capBset
  ambient : new.capAmbient.toSet ⊆ old.capAmbient.toSet
  effective : EffectiveHeld new
  securebits : new.securebits = old.securebits &&& ~~~ issecureMask SECURE_KEEP_CAPS
  uid : new.uid = old.uid
  euid : new.euid = (downgrade old file.unsafeBits (rootFixup old f).cred).euid
  settled : new.suid = new.euid ∧ new.fsuid = new.euid

theorem mergeAmbient_rest (old : Cred) (hasCap : Bool) (new : Cred) :
    (mergeAmbient old hasCap new).capBset = new.capBset ∧
      (mergeAmbient old hasCap new).securebits = new.securebits ∧
      (mergeAmbient old hasCap new).suid = new.suid ∧
      (mergeAmbient old hasCap new).fsuid = new.fsuid := by
  rw [mergeAmbient]
  split <;> exact ⟨rfl, rfl, rfl, rfl⟩

theorem execCred_execs {fileCapsEnabled : Bool} {f : FileCaps}
    (hf : getFileCaps fileCapsEnabled (prepareBinprm old file) = .ok f) :
    Execs old file f { execCred old file.unsafeBits f with
      securebits := (execCred old file.unsafeBits f).securebits &&&
        ~~~ issecureMask SECURE_KEEP_CAPS } := by
  have hres : ExecResult old (prepareBinprm old file) (execCred old file.unsafeBits f) :=
    execCred_result old (getFileCaps_sameBase hf)
  have hd := downgrade_spec old file.unsafeBits (rootFixup old f).cred
  have hr := rootFixup_spec old f
  have hg := getFileCaps_spec hf
  have hbase := (downgrade_sameBase old file.unsafeBits (rootFixup old f).cred).trans
    ((rootFixup_sameBase old f).trans (getFileCaps_sameBase hf))
  obtain ⟨n, hn⟩ : ∃ n, n = selectEffective (rootFixup old f).effective
      (settleIds (downgrade old file.unsafeBits (rootFixup old f).cred)) := ⟨_, rfl⟩
  have hmerged : execCred old file.unsafeBits f = mergeAmbient old (rootFixup old f).hasCap n := by
    rw [execCred, hn]
  have heff : n.capEffective.toSet ⊆ n.capPermitted.toSet := by
    rw [hn]
    exact selectEffective_subset _ _
  obtain ⟨heuid, -, -, -, hperm, -⟩ := mergeAmbient_spec old (rootFixup old f).hasCap n heff
  obtain ⟨hbset, hbits, hsuid, hfsuid⟩ := mergeAmbient_rest old (rootFixup old f).hasCap n
  obtain ⟨huid, -⟩ := mergeAmbient_keeps old (rootFixup old f).hasCap n
  have hambient : n.capAmbient = old.capAmbient := by
    rw [hn]
    exact hbase.ambient
  rw [hmerged] at hres ⊢
  refine ⟨?_, hres.inheritable, ?_, hres.ambient, hres.effective, ?_, ?_, ?_, ?_, ?_⟩
  · rw [hambient] at hperm
    refine hperm.trans ?_
    rw [hn]
    exact subset_rfl
  · refine hbset.trans ?_
    rw [hn]
    exact hd.2.1.trans (hr.2.1.trans hg.2.1)
  · refine congrArg (· &&& ~~~ issecureMask SECURE_KEEP_CAPS) (hbits.trans ?_)
    rw [hn]
    exact hd.2.2.trans (hr.2.2.trans hg.2.2)
  · refine huid.trans ?_
    rw [hn]
    exact hbase.uid
  · refine heuid.trans ?_
    rw [hn]
    rfl
  · refine hsuid.trans ((Eq.trans ?_ heuid.symm))
    rw [hn]
    rfl
  · refine hfsuid.trans ((Eq.trans ?_ heuid.symm))
    rw [hn]
    rfl

/-- An exec commits what its stages leave, or nothing. -/
theorem execve_cases (env : Env) (fileCapsEnabled : Bool) (old : Cred) (file : ExecFile) :
    execve env fileCapsEnabled old file = old ∨
      ∃ f, getFileCaps fileCapsEnabled (prepareBinprm old file) = .ok f ∧
        Execs old file f (execve env fileCapsEnabled old file) := by
  rw [execve]
  split
  · rename_i hret
    right
    cases hf : getFileCaps fileCapsEnabled (prepareBinprm old file) with
    | error ret =>
        simp only [capBprmSetCreds, hf] at hret
        exact absurd hret (getFileCaps_error_ne_zero hf)
    | ok f =>
        refine ⟨f, rfl, ?_⟩
        have hexecs := execCred_execs hf
        simp only [capBprmSetCreds, hf] at hret ⊢
        split at hret
        · rename_i haudit
          have hneg : env.auditRet < 0 := haudit.2
          simp only at hret
          omega
        · rename_i haudit
          rw [if_neg haudit]
          exact hexecs
  · exact .inl rfl

end Exec

/-! ### Nothing comes back -/

theorem Shrinks.reach {new old : Cred} (h : Shrinks new old) : reach new ⊆ reach old := by
  rintro p (((hp | hp) | hp) | hp)
  · exact .inl (.inl (.inl (h.permitted hp)))
  · exact (h.inheritable hp).elim (fun hI => .inl (.inl (.inr hI))) fun hB => .inl (.inr hB)
  · exact .inl (.inr (h.bset hp))
  · exact (h.ambient hp).elim .inr fun hP => .inl (.inl (.inl hP))

theorem Execs.permitted_reach {old : Cred} {file : ExecFile} {f : FileCaps} {new : Cred}
    (h : Execs old file f new) {fileCapsEnabled : Bool}
    (hf : getFileCaps fileCapsEnabled (prepareBinprm old file) = .ok f) :
    new.capPermitted.toSet ⊆
      old.capBset.toSet ∪ old.capInheritable.toSet ∪ old.capAmbient.toSet := by
  have hfile := (getFileCaps_spec hf).1
  have hroot := (rootFixup_spec old f).1
  have hdown := (downgrade_spec old file.unsafeBits (rootFixup old f).cred).1
  refine h.permitted.trans (Set.union_subset_union_left _ ?_)
  exact hdown.trans (hroot.trans (Set.union_subset hfile subset_rfl))

/-- A call is no exec and shrinks the sets, or it changes nothing, or it is an exec that commits. -/
theorem apply_cases (old : Cred) (s : CredStep) :
    s.execFile = none ∧ Shrinks (s.apply old) old ∨ s.apply old = old ∨
      ∃ file ∈ s.execFile, ∃ fileCapsEnabled f,
        getFileCaps fileCapsEnabled (prepareBinprm old file) = .ok f ∧
          Execs old file f (s.apply old) := by
  cases hexec : s.execFile with
  | none => exact .inl ⟨rfl, shrinks_apply old hexec⟩
  | some file =>
      obtain ⟨env, op⟩ := s
      cases op with
      | execve fileCapsEnabled executed =>
          obtain rfl := Option.some.inj hexec
          rcases execve_cases env fileCapsEnabled old executed with hsame | ⟨f, hf, h⟩
          · exact .inr (.inl hsame)
          · exact .inr (.inr ⟨executed, rfl, fileCapsEnabled, f, hf, h⟩)
      | _ => cases hexec

/-- What one call does to the reach, the bounding set and `pE ⊆ pP`. -/
theorem apply_reach (old : Cred) (s : CredStep) :
    reach (s.apply old) ⊆ reach old ∧ (s.apply old).capBset.toSet ⊆ old.capBset.toSet ∧
      (EffectiveHeld old → EffectiveHeld (s.apply old)) := by
  rcases apply_cases old s with ⟨-, h⟩ | hsame | ⟨file, -, fileCapsEnabled, f, hf, h⟩
  · exact ⟨h.reach, h.bset, h.effective⟩
  · rw [hsame]
    exact ⟨subset_rfl, subset_rfl, id⟩
  · refine ⟨?_, by rw [h.bset], fun _ => h.effective⟩
    rintro p (((hp | hp) | hp) | hp)
    · rcases h.permitted_reach hf hp with (hB | hI) | hA
      · exact .inl (.inr hB)
      · exact .inl (.inl (.inr hI))
      · exact .inr hA
    · exact .inl (.inl (.inr (h.inheritable ▸ hp)))
    · exact .inl (.inr (h.bset ▸ hp))
    · exact .inr (h.ambient hp)

/-- Over any run of calls a capability that the task neither had nor could come to have stays out of
reach, the bounding set only shrinks, and `pE ⊆ pP` is kept. -/
theorem reach_never_grows (start : Cred) (calls : List CredStep) (heff : EffectiveHeld start) :
    Run.Always CredStep.apply (fun c => reach c ⊆ reach start ∧
      c.capBset.toSet ⊆ start.capBset.toSet ∧ EffectiveHeld c) start calls := by
  refine Run.always_of_eachStep (Q := fun _ _ => True) ?_ ⟨subset_rfl, subset_rfl, heff⟩
    (Run.eachStep_of_forall fun _ _ => trivial)
  rintro c s ⟨hreach, hbset, heff⟩ -
  obtain ⟨hstep, hstepBset, hstepEff⟩ := apply_reach c s
  exact ⟨hstep.trans hreach, hstepBset.trans hbset, hstepEff heff⟩

/-- The daemon drops root with `CAP_NET_RAW` in its ambient set and executes a set-uid-root file. -/
theorem reach_never_grows_daemon :
    Run.Always CredStep.apply (fun c => reach c ⊆ reach rootDaemon ∧
        c.capBset.toSet ⊆ rootDaemon.capBset.toSet ∧ EffectiveHeld c) rootDaemon
      [⟨.quiet, .setuid 1000⟩, ⟨.quiet, .execve true (plainFile 0 0)⟩] :=
  reach_never_grows rootDaemon _ subset_rfl

/-! ### No new privileges -/

section NoNewPrivs

variable {old : Cred}

/-- Every exec of the step is made under `NO_NEW_PRIVS`. -/
def NoNewPrivs (s : CredStep) : Prop :=
  ∀ file ∈ s.execFile, file.unsafeBits &&& LSM_UNSAFE_NO_NEW_PRIVS ≠ 0

instance decidableNoNewPrivs (s : CredStep) : Decidable (NoNewPrivs s) :=
  inferInstanceAs (Decidable (∀ file ∈ s.execFile, _))

theorem Shrinks.held {new : Cred} (h : Shrinks new old) : held new ⊆ held old := by
  rintro p (hp | hp)
  · exact .inl (h.permitted hp)
  · exact (h.ambient hp).symm

theorem not_capable_setuid (heff : EffectiveHeld old)
    (hsetuid : position CAP_SETUID ∉ held old) : capable old CAP_SETUID = false := by
  have hraised : capRaised old.capEffective CAP_SETUID = false := by
    rw [Bool.eq_false_iff, ne_eq, capRaised_iff]
    exact fun hmem => hsetuid (.inl (heff hmem))
  rw [capable, capCapable, if_neg (fun h => absurd h.1 (by decide)),
    if_neg (fun h => absurd h.1 (by decide)), hraised]
  decide

theorem uids_setidCall {flags : SetidFlags} {asked : Except Int Cred}
    (h : ∀ new, asked = .ok new → uids new ⊆ uids old) :
    uids (setidCall old flags asked) ⊆ uids old := by
  cases asked with
  | error e => exact subset_rfl
  | ok new =>
      change uids (capTaskFixSetuid new old flags) ⊆ uids old
      rw [(capTaskFixSetuid_keeps new old flags).2.2]
      exact h new rfl

theorem uids_subset {new : Cred} {ids : Set Kuid} (huid : new.uid ∈ ids) (heuid : new.euid ∈ ids)
    (hsuid : new.suid ∈ ids) (hfsuid : new.fsuid ∈ ids) : uids new ⊆ ids := by
  rintro id (rfl | rfl | rfl | rfl)
  · exact huid
  · exact heuid
  · exact hsuid
  · exact hfsuid

theorem mem_uids (c : Cred) : c.uid ∈ uids c ∧ c.euid ∈ uids c ∧ c.suid ∈ uids c ∧
    c.fsuid ∈ uids c := by
  simp [uids]

theorem uids_setuid (hcap : capable old CAP_SETUID = false) {env : Env} {uid : Kuid} {new : Cred}
    (h : setuidIds env old uid = .ok new) : uids new ⊆ uids old := by
  obtain ⟨hu, -, hs, -⟩ := mem_uids old
  simp only [setuidIds, ite_error_eq_ok, hcap, Bool.false_eq_true, if_false, Except.ok.injEq] at h
  obtain ⟨-, -, hallowed, rfl⟩ := h
  have huid : uid ∈ uids old := by
    by_cases heq : uid = old.uid
    · exact heq ▸ hu
    · have heqs : uid = old.suid := by
        by_contra hne
        exact hallowed ⟨heq, hne⟩
      exact heqs ▸ hs
  exact uids_subset hu huid hs huid

theorem uids_setreuid (hcap : capable old CAP_SETUID = false) {env : Env} {ruid euid : Kuid}
    {new : Cred} (h : setreuidIds env old ruid euid = .ok new) : uids new ⊆ uids old := by
  obtain ⟨hu, he, hs, -⟩ := mem_uids old
  simp only [setreuidIds, ite_error_eq_ok, hcap, Except.ok.injEq] at h
  obtain ⟨-, -, -, hruid, heuid, -, rfl⟩ := h
  have huid : (if ruid ≠ invalidUid then ruid else old.uid) ∈ uids old := by
    split
    · rename_i hasks
      by_cases hequ : old.uid = ruid
      · exact hequ ▸ hu
      · by_cases heqe : old.euid = ruid
        · exact heqe ▸ he
        · exact absurd ⟨hasks, hequ, heqe, Bool.false_ne_true⟩ hruid
    · exact hu
  have heuid : (if euid ≠ invalidUid then euid else old.euid) ∈ uids old := by
    split
    · rename_i hasks
      by_cases hequ : old.uid = euid
      · exact hequ ▸ hu
      · by_cases heqe : old.euid = euid
        · exact heqe ▸ he
        · by_cases heqs : old.suid = euid
          · exact heqs ▸ hs
          · exact absurd ⟨hasks, hequ, heqe, heqs, Bool.false_ne_true⟩ heuid
    · exact he
  refine uids_subset huid heuid ?_ heuid
  dsimp only
  split
  · exact heuid
  · exact hs

theorem uids_setresuid (hcap : capable old CAP_SETUID = false) {env : Env}
    {ruid euid suid : Kuid} {new : Cred} (h : setresuidIds env old ruid euid suid = .ok new) :
    uids new ⊆ uids old := by
  obtain ⟨hu, he, hs, -⟩ := mem_uids old
  simp only [setresuidIds, ite_error_eq_ok, hcap, Except.ok.injEq] at h
  obtain ⟨-, -, -, -, hruid, heuid, hsuid, -, rfl⟩ := h
  -- An id that is asked for is one of the three that need no capability.
  have hasked : ∀ {id keep : Kuid}, keep ∈ uids old →
      ¬ (¬ false = true ∧ id ≠ invalidUid ∧ id ≠ old.uid ∧ id ≠ old.euid ∧ id ≠ old.suid) →
      (if id ≠ invalidUid then id else keep) ∈ uids old := by
    intro id keep hkeep hallowed
    split
    · rename_i hasks
      by_cases hequ : id = old.uid
      · exact hequ ▸ hu
      · by_cases heqe : id = old.euid
        · exact heqe ▸ he
        · by_cases heqs : id = old.suid
          · exact heqs ▸ hs
          · exact absurd ⟨Bool.false_ne_true, hasks, hequ, heqe, heqs⟩ hallowed
    · exact hkeep
  exact uids_subset (hasked hu hruid) (hasked he heuid) (hasked hs hsuid) (hasked he heuid)

theorem uids_setfsuid (hcap : capable old CAP_SETUID = false) {env : Env} {uid : Kuid} {new : Cred}
    (h : setfsuidIds env old uid = .ok new) : uids new ⊆ uids old := by
  obtain ⟨hu, he, hs, hf⟩ := mem_uids old
  simp only [setfsuidIds, ite_error_eq_ok, ite_eq_ok_of_error, hcap, Except.ok.injEq] at h
  obtain ⟨-, -, ⟨hallowed, -⟩, rfl⟩ := h
  refine uids_subset hu he hs ?_
  rcases hallowed with rfl | rfl | rfl | rfl | hfalse
  · exact hu
  · exact he
  · exact hs
  · exact hf
  · exact absurd hfalse Bool.false_ne_true

theorem uids_ite {p : Prop} [Decidable p] {a b : Int × Cred} (ha : uids a.2 = uids old)
    (hb : uids b.2 = uids old) : uids (if p then a else b).2 = uids old := by
  split
  · exact ha
  · exact hb

theorem uids_capCapset (old : Cred) (effective inheritable permitted : KernelCap) :
    uids (capCapset old effective inheritable permitted).2 = uids old :=
  uids_ite rfl (uids_ite rfl (uids_ite rfl (uids_ite rfl rfl)))

theorem uids_sysPrctl (env : Env) (old : Cred) (option arg2 arg3 arg4 arg5 : Word) :
    uids (sysPrctl env old option arg2 arg3 arg4 arg5) = uids old := by
  have hdrop : uids (capPrctlDrop old old arg2).2 = uids old := by
    refine uids_ite rfl ?_
    split <;> rfl
  have hread : uids (if h : capValid arg2.toNat = true then
      ((if capRaised old.capBset (validFlag arg2 h) then 1 else 0 : Int), old)
      else (-EINVAL, old)).2 = uids old := by
    split <;> rfl
  have htask : uids (capTaskPrctl env old option arg2).2 = uids old := by
    refine uids_ite rfl (uids_ite hread (uids_ite hdrop (uids_ite (uids_ite rfl rfl) ?_)))
    refine uids_ite rfl (uids_ite rfl (uids_ite (uids_ite rfl (uids_ite rfl ?_)) rfl))
    exact uids_ite rfl rfl
  have hambient : uids (prctlCapAmbient env old arg2 arg3 arg4 arg5).2 = uids old := by
    refine uids_ite (uids_ite rfl (uids_ite rfl rfl)) ?_
    split
    · refine uids_ite rfl (uids_ite rfl (uids_ite rfl (uids_ite rfl ?_)))
      exact uids_ite rfl rfl
    · rfl
  simp only [sysPrctl]
  split
  · exact htask
  split
  · exact hambient
  · rfl

/-- A call without `CAP_SETUID` leads to none but the ids the task has. -/
theorem uids_apply (hcap : capable old CAP_SETUID = false) {s : CredStep}
    (hexec : s.execFile = none) : uids (s.apply old) ⊆ uids old := by
  obtain ⟨env, op⟩ := s
  cases op with
  | capset e i p =>
      exact (uids_capCapset old e i p).subset
  | prctl option arg2 arg3 arg4 arg5 =>
      exact (uids_sysPrctl env old option arg2 arg3 arg4 arg5).subset
  | setuid uid => exact uids_setidCall fun new h => uids_setuid hcap h
  | setreuid ruid euid => exact uids_setidCall fun new h => uids_setreuid hcap h
  | setresuid ruid euid suid => exact uids_setidCall fun new h => uids_setresuid hcap h
  | setfsuid uid => exact uids_setidCall fun new h => uids_setfsuid hcap h
  | execve fileCapsEnabled file => cases hexec

/-- An exec under `NO_NEW_PRIVS` gives no capability the task did not hold, and goes on with the
real uid. -/
theorem Execs.noNewPrivs {file : ExecFile} {f : FileCaps} {new : Cred} (h : Execs old file f new)
    {fileCapsEnabled : Bool} (hf : getFileCaps fileCapsEnabled (prepareBinprm old file) = .ok f)
    (hnnp : file.unsafeBits &&& LSM_UNSAFE_NO_NEW_PRIVS ≠ 0) :
    held new ⊆ held old ∧ uids new ⊆ uids old := by
  have hbits : file.unsafeBits &&& ~~~ LSM_UNSAFE_PTRACE_CAP ≠ 0 := by
    intro hzero
    have hmask : LSM_UNSAFE_NO_NEW_PRIVS =
        ~~~ LSM_UNSAFE_PTRACE_CAP &&& LSM_UNSAFE_NO_NEW_PRIVS := by decide
    rw [hmask, ← BitVec.and_assoc, hzero] at hnnp
    exact hnnp BitVec.zero_and
  have hbase : SameBase (rootFixup old f).cred (prepareBinprm old file).cred :=
    (rootFixup_sameBase old f).trans (getFileCaps_sameBase hf)
  have hids := downgrade_ids old (rootFixup old f).cred hbase.uid hbase.gid hnnp
  have heuid : new.euid = old.uid := h.euid.trans hids.1
  obtain ⟨hu, -⟩ := mem_uids old
  constructor
  · rintro p (hp | hp)
    · exact (h.permitted hp).imp_left fun hd => downgrade_permitted old _ hbits hd
    · exact .inr (h.ambient hp)
  · refine uids_subset (h.uid ▸ hu) (heuid ▸ hu) ?_ ?_
    · rw [h.settled.1, heuid]
      exact hu
    · rw [h.settled.2, heuid]
      exact hu

/-- A task under `NO_NEW_PRIVS` that holds no `CAP_SETUID`: over any run of calls it never holds a
capability it did not hold at the start, and its uids are always among its first four. -/
theorem noNewPrivs_confines (start : Cred) (calls : List CredStep) (heff : EffectiveHeld start)
    (hsetuid : position CAP_SETUID ∉ held start) (hnnp : ∀ s ∈ calls, NoNewPrivs s) :
    Run.Always CredStep.apply (fun c => held c ⊆ held start ∧ uids c ⊆ uids start ∧
      EffectiveHeld c) start calls := by
  refine Run.always_of_eachStep ?_ ⟨subset_rfl, subset_rfl, heff⟩ (Run.eachStep_of_forall hnnp)
  rintro c s ⟨hheld, huids, heff⟩ hs
  have hstepEff := (apply_reach c s).2.2 heff
  rcases apply_cases c s with ⟨hexec, h⟩ | hsame | ⟨file, hfile, fileCapsEnabled, f, hf, h⟩
  · have hcap := not_capable_setuid heff fun hmem => hsetuid (hheld hmem)
    exact ⟨h.held.trans hheld, (uids_apply hcap hexec).trans huids, hstepEff⟩
  · rw [hsame]
    exact ⟨hheld, huids, heff⟩
  · obtain ⟨hstepHeld, hstepUids⟩ := h.noNewPrivs hf (hs file hfile)
    exact ⟨hstepHeld.trans hheld, hstepUids.trans huids, hstepEff⟩

/-- A service of uid 1000 tries a set-uid-root file and then `setuid` to root. -/
theorem noNewPrivs_confines_service :
    Run.Always CredStep.apply (fun c => held c ⊆ held netRawService ∧
        uids c ⊆ uids netRawService ∧ EffectiveHeld c) netRawService
      [⟨.quiet, .execve true { plainFile 0 0 with unsafeBits := LSM_UNSAFE_NO_NEW_PRIVS }⟩,
        ⟨.quiet, .setuid 0⟩] := by
  refine noNewPrivs_confines netRawService _ subset_rfl ?_ (by decide)
  rintro (hmem | hmem) <;>
  · rw [← capRaised_iff] at hmem
    revert hmem
    decide

end NoNewPrivs

/-! ### Locked securebits -/

section Locked

/-- The three securebits, each with its lock one bit higher. -/
def securebitNumbers : List Nat := [SECURE_NOROOT, SECURE_NO_SETUID_FIXUP, SECURE_KEEP_CAPS]

/-- What was locked is locked and as it was, except that `KEEP_CAPS` may be clear now. -/
def LocksHold (start c : Cred) : Prop :=
  ∀ x ∈ securebitNumbers, start.securebits.getLsbD (x + 1) = true →
    c.securebits.getLsbD (x + 1) = true ∧
      (c.securebits.getLsbD x = start.securebits.getLsbD x ∨
        x = SECURE_KEEP_CAPS ∧ c.securebits.getLsbD x = false)

theorem LocksHold.refl (c : Cred) : LocksHold c c := fun _ _ h => ⟨h, .inl rfl⟩

theorem LocksHold.trans {a b c : Cred} (hab : LocksHold a b) (hbc : LocksHold b c) :
    LocksHold a c := by
  intro x hx ha
  obtain ⟨hb, hkeptB⟩ := hab x hx ha
  obtain ⟨hc, hkeptC⟩ := hbc x hx hb
  refine ⟨hc, ?_⟩
  rcases hkeptC with hsame | hclear
  · rw [hsame]
    exact hkeptB
  · exact .inr hclear

theorem lock_of_mem {x : Nat} (hx : x ∈ securebitNumbers) :
    SECURE_ALL_LOCKS.getLsbD (x + 1) = true ∧ x + 1 < 32 ∧ x + 1 ≠ SECURE_KEEP_CAPS := by
  revert x
  decide

/-- `PR_SET_SECUREBITS` keeps every lock, and every bit that is locked. -/
theorem locksHold_set {old : Cred} {bits : BitVec 32}
    (hfrozen : ((old.securebits &&& SECURE_ALL_LOCKS) >>> 1) &&& (old.securebits ^^^ bits) = 0)
    (hlocks : old.securebits &&& SECURE_ALL_LOCKS &&& ~~~ bits = 0) :
    LocksHold old { old with securebits := bits } := by
  intro x hx hlocked
  obtain ⟨hmask, hlt, -⟩ := lock_of_mem hx
  have hkept := congrArg (·.getLsbD (x + 1)) hlocks
  have hsame := congrArg (·.getLsbD x) hfrozen
  simp only [BitVec.getLsbD_and, BitVec.getLsbD_not, hlocked, hmask, hlt, decide_true,
    Bool.true_and, Bool.and_true, BitVec.ofNat_eq_ofNat, BitVec.getLsbD_zero,
    Bool.not_eq_false'] at hkept
  simp only [BitVec.getLsbD_and, BitVec.getLsbD_xor, BitVec.getLsbD_ushiftRight, Nat.add_comm 1 x,
    hlocked, hmask, Bool.true_and, BitVec.ofNat_eq_ofNat, BitVec.getLsbD_zero] at hsame
  have heq : old.securebits.getLsbD x = bits.getLsbD x := by simpa using hsame
  exact ⟨hkept, .inl heq.symm⟩

/-- Only the bit `KEEP_CAPS` changes. -/
theorem locksHold_keepCaps {old : Cred} {bits : BitVec 32}
    (hother : ∀ i, i ≠ SECURE_KEEP_CAPS → bits.getLsbD i = old.securebits.getLsbD i)
    (hkeep : old.securebits.getLsbD SECURE_KEEP_CAPS_LOCKED = true →
      bits.getLsbD SECURE_KEEP_CAPS = false) :
    LocksHold old { old with securebits := bits } := by
  intro x hx hlocked
  refine ⟨(hother _ (lock_of_mem hx).2.2).trans hlocked, ?_⟩
  by_cases hxk : x = SECURE_KEEP_CAPS
  · subst hxk
    exact .inr ⟨rfl, hkeep hlocked⟩
  · exact .inl (hother x hxk)

theorem getLsbD_keepCapsMask (i : Nat) :
    (issecureMask SECURE_KEEP_CAPS).getLsbD i = decide (i = SECURE_KEEP_CAPS) := by
  by_cases hi : i < 32
  · revert i
    decide
  · rw [BitVec.getLsbD_of_ge _ _ (not_lt.1 hi)]
    refine (decide_eq_false fun h => hi ?_).symm
    rw [h]
    decide

theorem locksHold_clear (old : Cred) :
    LocksHold old { old with
      securebits := old.securebits &&& ~~~ issecureMask SECURE_KEEP_CAPS } := by
  refine locksHold_keepCaps (fun i hi => ?_) (fun _ => ?_)
  · by_cases hlt : i < 32
    · rw [BitVec.getLsbD_and, BitVec.getLsbD_not, getLsbD_keepCapsMask, decide_eq_false hi,
        decide_eq_true hlt, Bool.not_false, Bool.and_true, Bool.and_true]
    · rw [BitVec.getLsbD_of_ge _ _ (not_lt.1 hlt), BitVec.getLsbD_of_ge _ _ (not_lt.1 hlt)]
  · rw [BitVec.getLsbD_and, BitVec.getLsbD_not, getLsbD_keepCapsMask, decide_eq_true rfl,
      Bool.not_true, Bool.and_false, Bool.and_false]

theorem issecure_iff (c : Cred) {x : Nat} (hx : x < 32) :
    issecure c x = c.securebits.getLsbD x := by
  have hmask : ∀ i, (issecureMask x).getLsbD i = decide (i = x) := by
    intro i
    rw [issecureMask, BitVec.getLsbD_shiftLeft, BitVec.getLsbD_one]
    by_cases hi : i = x
    · subst hi
      simp [hx]
    · have hcases : i < x ∨ i - x ≠ 0 := by omega
      rcases hcases with h | h <;> simp [hi, h]
  rw [issecure]
  cases hbit : c.securebits.getLsbD x with
  | false =>
      have hzero : c.securebits &&& issecureMask x = 0 := by
        refine BitVec.eq_of_getLsbD_eq fun i _ => ?_
        rw [BitVec.getLsbD_and, hmask]
        by_cases hi : i = x
        · rw [hi, hbit, Bool.false_and, BitVec.ofNat_eq_ofNat, BitVec.getLsbD_zero]
        · rw [decide_eq_false hi, Bool.and_false, BitVec.ofNat_eq_ofNat, BitVec.getLsbD_zero]
      rw [hzero]
      rfl
  | true =>
      rw [bne_iff_ne]
      intro hzero
      have hx' := congrArg (·.getLsbD x) hzero
      simp [hmask, hbit] at hx'

theorem LocksHold.of_eq {new old : Cred} (h : new.securebits = old.securebits) :
    LocksHold old new := by
  intro x _ hlocked
  rw [h]
  exact ⟨hlocked, .inl rfl⟩

theorem locksHold_ite {old : Cred} {p : Prop} [Decidable p] {a b : Int × Cred}
    (ha : p → LocksHold old a.2) (hb : ¬ p → LocksHold old b.2) :
    LocksHold old (if p then a else b).2 := by
  by_cases hp : p
  · rw [if_pos hp]
    exact ha hp
  · rw [if_neg hp]
    exact hb hp

theorem locksHold_capTaskPrctl (env : Env) (old : Cred) (option arg2 : Word) :
    LocksHold old (capTaskPrctl env old option arg2).2 := by
  rw [capTaskPrctl]
  refine locksHold_ite (fun _ => .refl old) fun _ => ?_
  refine locksHold_ite (fun _ => ?_) fun _ => ?_
  · split <;> exact .refl old
  refine locksHold_ite (fun _ => ?_) fun _ => ?_
  · rw [capPrctlDrop]
    split
    · exact .refl old
    split <;> exact .of_eq rfl
  refine locksHold_ite (fun _ => ?_) fun _ => ?_
  · refine locksHold_ite (fun _ => .refl old) fun hallowed => ?_
    rw [not_or, not_or, not_not, not_not] at hallowed
    exact locksHold_set hallowed.1 hallowed.2.1
  refine locksHold_ite (fun _ => .refl old) fun _ => ?_
  refine locksHold_ite (fun _ => .refl old) fun _ => ?_
  refine locksHold_ite (fun _ => ?_) fun _ => .refl old
  refine locksHold_ite (fun _ => .refl old) fun _ => ?_
  refine locksHold_ite (fun _ => .refl old) fun hunlocked => ?_
  refine locksHold_ite (fun _ => ?_) fun _ => locksHold_clear old
  refine locksHold_keepCaps (fun i hi => ?_) fun hlocked => ?_
  · rw [BitVec.getLsbD_or, getLsbD_keepCapsMask, decide_eq_false hi, Bool.or_false]
  · rw [issecure_iff old (by decide)] at hunlocked
    exact absurd hlocked hunlocked

theorem locksHold_apply (old : Cred) (s : CredStep) : LocksHold old (s.apply old) := by
  obtain ⟨env, op⟩ := s
  have hsetid : ∀ flags asked, (∀ new, asked = .ok new → OnlyUids new old) →
      LocksHold old (setidCall old flags asked) := by
    intro flags asked hasked
    cases asked with
    | error e => exact .refl old
    | ok new =>
        refine .of_eq ((capTaskFixSetuid_keeps new old flags).2.1.trans ?_)
        rw [hasked new rfl]
  cases op with
  | capset e i p =>
      refine locksHold_ite (fun _ => .refl old) fun _ => ?_
      refine locksHold_ite (fun _ => .refl old) fun _ => ?_
      refine locksHold_ite (fun _ => .refl old) fun _ => ?_
      exact locksHold_ite (fun _ => .refl old) fun _ => .of_eq rfl
  | prctl option arg2 arg3 arg4 arg5 =>
      change LocksHold old (sysPrctl env old option arg2 arg3 arg4 arg5)
      simp only [sysPrctl]
      split
      · exact locksHold_capTaskPrctl env old option arg2
      split
      · refine locksHold_ite (fun _ => ?_) fun _ => ?_
        · refine locksHold_ite (fun _ => .refl old) fun _ => ?_
          exact locksHold_ite (fun _ => .refl old) fun _ => .of_eq rfl
        · split
          · refine locksHold_ite (fun _ => .refl old) fun _ => ?_
            refine locksHold_ite (fun _ => .refl old) fun _ => ?_
            refine locksHold_ite (fun _ => .refl old) fun _ => ?_
            refine locksHold_ite (fun _ => .refl old) fun _ => ?_
            exact locksHold_ite (fun _ => .of_eq rfl) fun _ => .of_eq rfl
          · exact .refl old
      · exact .refl old
  | setuid uid => exact hsetid _ _ fun new h => setuidIds_onlyUids h
  | setreuid ruid euid => exact hsetid _ _ fun new h => setreuidIds_onlyUids h
  | setresuid ruid euid suid => exact hsetid _ _ fun new h => setresuidIds_onlyUids h
  | setfsuid uid => exact hsetid _ _ fun new h => setfsuidIds_onlyUids h
  | execve fileCapsEnabled file =>
      change LocksHold old (execve env fileCapsEnabled old file)
      rcases execve_cases env fileCapsEnabled old file with hsame | ⟨f, -, h⟩
      · rw [hsame]
        exact .refl old
      · intro x hx hlocked
        rw [h.securebits]
        exact locksHold_clear old x hx hlocked

/-- No executed file of the step carries capabilities. -/
def NoFileCaps (s : CredStep) : Prop :=
  ∀ file ∈ s.execFile, ∃ rc, getVfsCapsFromDisk file.xattr = .error rc

/-- A file without capabilities gives none under `SECURE_NOROOT`, root or not. -/
theorem Execs.noRoot {old new : Cred} {file : ExecFile} {f : FileCaps} (h : Execs old file f new)
    {fileCapsEnabled : Bool} (hf : getFileCaps fileCapsEnabled (prepareBinprm old file) = .ok f)
    (hfile : ∃ rc, getVfsCapsFromDisk file.xattr = .error rc)
    (hnoroot : issecure old SECURE_NOROOT = true) : held new ⊆ held old := by
  obtain ⟨rc, hrc⟩ := hfile
  have hclear : f.cred.capPermitted = capClear := by
    simp only [getFileCaps] at hf
    split at hf
    · cases hf
      rfl
    split at hf
    · cases hf
      rfl
    have hxattr : (prepareBinprm old file).xattr = file.xattr := rfl
    rw [hxattr, hrc] at hf
    simp only [ite_eq_ok_of_error, Except.ok.injEq] at hf
    rw [← hf.2]
    rfl
  have hroot : rootFixup old f = f := by rw [rootFixup, if_pos hnoroot]
  rintro p (hp | hp)
  · refine .inr ((h.permitted hp).resolve_left fun hd => ?_)
    have hd' := (downgrade_spec old file.unsafeBits (rootFixup old f).cred).1 hd
    rw [hroot, hclear, toSet_capClear] at hd'
    exact hd'
  · exact .inr (h.ambient hp)

/-- A root daemon with `SECURE_NOROOT` locked and nothing permitted executes a plain file as root. -/
def strippedRoot : Cred :=
  { rootDaemon with securebits := 3, capPermitted := capClear, capEffective := capClear,
                    capInheritable := capClear, capAmbient := capClear }

end Locked

end LineageA1000.Caps
