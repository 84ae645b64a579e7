import LineageA1000.Caps.Ambient

/-!
# When an exec drops the ambient set

An exec drops the ambient set when the file grants capabilities or the set-id bits chose effective
ids other than the caller's real ones, as upstream decides it before any downgrade. The back-port
decides after the downgrade and compares with the caller's effective ids. The two agree when the
caller runs with its real ids and nothing denies the change of ids, and otherwise only by
coincidence.
-/

namespace LineageA1000.Caps

open KernelCap

/-- `has_cap`: the file's capabilities count in this exec. -/
def carriesCaps (fileCapsEnabled : Bool) (bprm : LinuxBinprm) : Bool :=
  match getFileCaps fileCapsEnabled bprm with
  | .ok f => f.hasCap
  | .error _ => false

/-- The upstream `is_setid`: the chosen effective ids are not the caller's real ids. -/
def IsSetid (old : Cred) (file : ExecFile) : Prop := file.euid ≠ old.uid ∨ file.egid ≠ old.gid

instance (old : Cred) (file : ExecFile) : Decidable (IsSetid old file) :=
  inferInstanceAs (Decidable (_ ∨ _))

/-- The caller's effective ids are not its real ids. -/
def RunsSetid (old : Cred) : Prop := old.uid ≠ old.euid ∨ old.gid ≠ old.egid

instance (old : Cred) : Decidable (RunsSetid old) := inferInstanceAs (Decidable (_ ∨ _))

/-- The chosen ids are not the ones the caller has in effect. -/
def ChangesIds (old : Cred) (file : ExecFile) : Prop :=
  file.euid ≠ old.euid ∨ file.egid ≠ old.egid

instance (old : Cred) (file : ExecFile) : Decidable (ChangesIds old file) :=
  inferInstanceAs (Decidable (_ ∨ _))

/-- An unsafe exec by a caller that may not set ids, or may not gain privileges. -/
def DeniesIds (old : Cred) (unsafeBits : BitVec 32) : Prop :=
  unsafeBits &&& ~~~ LSM_UNSAFE_PTRACE_CAP ≠ 0 ∧
    (¬ capable old CAP_SETUID ∨ unsafeBits &&& LSM_UNSAFE_NO_NEW_PRIVS ≠ 0)

instance (old : Cred) (unsafeBits : BitVec 32) : Decidable (DeniesIds old unsafeBits) :=
  inferInstanceAs (Decidable (_ ∧ _))

/-- The ambient set after the exec: empty where the file grants capabilities or is set-id, the
caller's everywhere else. -/
def AmbientExact (fileCapsEnabled : Bool) (old : Cred) (file : ExecFile) (new : Cred) : Prop :=
  new.capAmbient =
    if carriesCaps fileCapsEnabled (prepareBinprm old file) ∨ IsSetid old file then capClear
    else old.capAmbient

instance (fileCapsEnabled : Bool) (old : Cred) (file : ExecFile) (new : Cred) :
    Decidable (AmbientExact fileCapsEnabled old file new) :=
  inferInstanceAs (Decidable (_ = _))

/-- The ids make the two tests agree: a file that is not set-id is run by a caller with its real ids
in effect; a set-id one changes the ids in effect, or is denied and the caller runs set-id
itself. -/
def TestsAgree (old : Cred) (file : ExecFile) : Prop :=
  if IsSetid old file then
    if DeniesIds old file.unsafeBits then RunsSetid old else ChangesIds old file
  else ¬ RunsSetid old

instance (old : Cred) (file : ExecFile) : Decidable (TestsAgree old file) :=
  inferInstanceAs (Decidable (ite _ _ _))

/-! ### The ids after the downgrade -/

theorem rootFixup_hasCap (old : Cred) (f : FileCaps) : (rootFixup old f).hasCap = f.hasCap := by
  simp only [rootFixup]
  repeat' split
  all_goals rfl

theorem rootFixup_ids (old : Cred) (f : FileCaps) :
    (rootFixup old f).cred.euid = f.cred.euid ∧ (rootFixup old f).cred.egid = f.cred.egid := by
  simp only [rootFixup]
  repeat' split
  all_goals exact ⟨rfl, rfl⟩

theorem getFileCaps_ids {fileCapsEnabled : Bool} {bprm : LinuxBinprm} {f : FileCaps}
    (h : getFileCaps fileCapsEnabled bprm = .ok f) :
    f.cred.euid = bprm.cred.euid ∧ f.cred.egid = bprm.cred.egid := by
  simp only [getFileCaps] at h
  split at h
  · injection h with h
    subst h
    exact ⟨rfl, rfl⟩
  split at h
  · injection h with h
    subst h
    exact ⟨rfl, rfl⟩
  split at h
  · simp only [ite_eq_ok_of_error, Except.ok.injEq] at h
    obtain ⟨-, rfl⟩ := h
    exact ⟨rfl, rfl⟩
  · simp only [bprmCapsFromVfsCaps, ite_error_eq_ok, Except.ok.injEq] at h
    obtain ⟨-, rfl⟩ := h
    exact ⟨rfl, rfl⟩

/-- The ids the downgrade leaves: the real ones where changes are denied, otherwise those that were
asked for. Where nothing was asked for, both are the same. -/
theorem downgrade_ids_eq (old : Cred) (unsafeBits : BitVec 32) (new : Cred)
    (huid : new.uid = old.uid) (hgid : new.gid = old.gid) :
    (downgrade old unsafeBits new).euid =
        (if DeniesIds old unsafeBits then old.uid else new.euid) ∧
      (downgrade old unsafeBits new).egid =
        (if DeniesIds old unsafeBits then old.gid else new.egid) := by
  rw [downgrade]
  split
  · rename_i hdown
    by_cases hdenied : ¬ capable old CAP_SETUID ∨ unsafeBits &&& LSM_UNSAFE_NO_NEW_PRIVS ≠ 0
    · have hdenies : DeniesIds old unsafeBits := ⟨hdown.2, hdenied⟩
      rw [if_pos hdenied, if_pos hdenies, if_pos hdenies]
      exact ⟨huid, hgid⟩
    · have hgrants : ¬ DeniesIds old unsafeBits := fun h => hdenied h.2
      rw [if_neg hdenied, if_neg hgrants, if_neg hgrants]
      exact ⟨rfl, rfl⟩
  · rename_i hkeep
    split
    · rename_i hdenies
      constructor
      · by_contra hne
        exact hkeep ⟨Or.inl hne, hdenies.1⟩
      · by_contra hne
        exact hkeep ⟨Or.inr (Or.inl hne), hdenies.1⟩
    · exact ⟨rfl, rfl⟩

/-! ### The exec -/

/-- The ids that the back-port compares with the caller's effective ones differ from them exactly
where the comparison upstream makes would have it so, or the tests disagree. -/
theorem testsAgree_iff (old : Cred) (file : ExecFile) :
    TestsAgree old file ↔
      (((if DeniesIds old file.unsafeBits then old.uid else file.euid) ≠ old.euid ∨
          (if DeniesIds old file.unsafeBits then old.gid else file.egid) ≠ old.egid) ↔
        IsSetid old file) := by
  unfold TestsAgree
  by_cases hsetid : IsSetid old file
  · rw [if_pos hsetid, iff_true_right hsetid]
    by_cases hdenies : DeniesIds old file.unsafeBits
    · rw [if_pos hdenies, if_pos hdenies, if_pos hdenies, RunsSetid]
    · rw [if_neg hdenies, if_neg hdenies, if_neg hdenies, ChangesIds]
  · obtain ⟨heuid, hegid⟩ := not_or.1 hsetid
    rw [if_neg hsetid, iff_false_right hsetid, not_not.1 heuid, not_not.1 hegid, ite_self, ite_self,
      RunsSetid]

theorem mergeAmbient_ambient (old : Cred) (hasCap : Bool) (new : Cred) :
    (mergeAmbient old hasCap new).capAmbient =
      if hasCap ∨ new.euid ≠ old.euid ∨ new.egid ≠ old.egid then capClear else new.capAmbient := by
  rw [mergeAmbient]
  split <;> rfl

/-- The ambient set a successful exec leaves. -/
theorem capBprmSetCreds_ambient {env : Env} {fileCapsEnabled : Bool} {old : Cred} {file : ExecFile}
    (hret : (capBprmSetCreds env fileCapsEnabled old (prepareBinprm old file)).1 = 0) :
    (capBprmSetCreds env fileCapsEnabled old (prepareBinprm old file)).2.cred.capAmbient =
      if carriesCaps fileCapsEnabled (prepareBinprm old file) ∨
          (if DeniesIds old file.unsafeBits then old.uid else file.euid) ≠ old.euid ∨
          (if DeniesIds old file.unsafeBits then old.gid else file.egid) ≠ old.egid then capClear
      else old.capAmbient := by
  cases hcaps : getFileCaps fileCapsEnabled (prepareBinprm old file) with
  | error ret =>
      simp only [capBprmSetCreds, hcaps] at hret
      exact absurd hret (getFileCaps_error_ne_zero hcaps)
  | ok f =>
      have hbase : SameBase (rootFixup old f).cred (prepareBinprm old file).cred :=
        (rootFixup_sameBase old f).trans (getFileCaps_sameBase hcaps)
      have hids : f.cred.euid = file.euid ∧ f.cred.egid = file.egid := getFileCaps_ids hcaps
      obtain ⟨heuid', hegid'⟩ := rootFixup_ids old f
      obtain ⟨hdown, hdown'⟩ :=
        downgrade_ids_eq old file.unsafeBits (rootFixup old f).cred hbase.uid hbase.gid
      rw [heuid'.trans hids.1] at hdown
      rw [hegid'.trans hids.2] at hdown'
      have hambient : (downgrade old file.unsafeBits (rootFixup old f).cred).capAmbient =
          old.capAmbient :=
        ((downgrade_sameBase old file.unsafeBits _).trans hbase).ambient
      have hresult : (capBprmSetCreds env fileCapsEnabled old
          (prepareBinprm old file)).2.cred.capAmbient =
            (execCred old file.unsafeBits f).capAmbient := by
        simp only [capBprmSetCreds, hcaps]
        split <;> rfl
      have hcarries : carriesCaps fileCapsEnabled (prepareBinprm old file) =
          (rootFixup old f).hasCap := by
        rw [carriesCaps, hcaps, rootFixup_hasCap]
      rw [hresult, hcarries, ← hdown, ← hdown', ← hambient]
      exact mergeAmbient_ambient old (rootFixup old f).hasCap _

/-- Two tests with a common part choose the same value where they agree or the values do. -/
theorem ite_or_eq_iff {α : Type*} {a b : α} (c p q : Prop) [Decidable c] [Decidable p]
    [Decidable q] :
    ((if c ∨ p then a else b) = if c ∨ q then a else b) ↔ b = a ∨ c ∨ (p ↔ q) := by
  by_cases hc : c
  · simp only [hc, true_or, if_true, or_true]
  · by_cases hp : p <;> by_cases hq : q <;>
      simp only [hc, hp, hq, if_true, if_false, or_true, or_false, iff_true, iff_false,
        not_true_eq_false, eq_comm]

/-- A successful exec drops the ambient set exactly where upstream does if and only if there is
nothing to drop, the file grants capabilities, or the ids make the two tests agree. -/
theorem ambient_exact_iff (env : Env) (fileCapsEnabled : Bool) (old : Cred) (file : ExecFile)
    (hret : (capBprmSetCreds env fileCapsEnabled old (prepareBinprm old file)).1 = 0) :
    AmbientExact fileCapsEnabled old file
        (capBprmSetCreds env fileCapsEnabled old (prepareBinprm old file)).2.cred ↔
      old.capAmbient = capClear ∨ carriesCaps fileCapsEnabled (prepareBinprm old file) = true ∨
        TestsAgree old file := by
  rw [AmbientExact, capBprmSetCreds_ambient hret, testsAgree_iff]
  exact ite_or_eq_iff _ _ _

theorem ambient_exact_iff_setgid :
    AmbientExact true netRawService (plainFile 1000 1001)
        (capBprmSetCreds .quiet true netRawService
          (prepareBinprm netRawService (plainFile 1000 1001))).2.cred ↔
      netRawService.capAmbient = capClear ∨
        carriesCaps true (prepareBinprm netRawService (plainFile 1000 1001)) = true ∨
        TestsAgree netRawService (plainFile 1000 1001) :=
  ambient_exact_iff .quiet true netRawService (plainFile 1000 1001) (by decide)

/-- A caller whose effective uid differs from its real one runs an ordinary file and keeps its
ambient set. -/
theorem ambient_kept_by_setid_caller :
    let old := { netRawService with uid := 2000 }
    let file := plainFile 1000 1000
    let r := capBprmSetCreds .quiet true old (prepareBinprm old file)
    r.1 = 0 ∧ IsSetid old file ∧ r.2.cred.capAmbient = capMask CAP_NET_RAW ∧
      ¬ AmbientExact true old file r.2.cred := by
  decide

end LineageA1000.Caps
