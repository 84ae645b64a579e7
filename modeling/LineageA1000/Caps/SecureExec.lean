import LineageA1000.Caps.ExecAmbient

/-!
# When an exec is a secure one

`cap_bprm_secureexec` tells the loader of a program whether to distrust its environment. Its rule is
the one from before there were ambient capabilities: any permitted capability makes the exec of a
non-root process a secure one. The rule that came with them leaves out what the process holds
through the ambient set, and the two differ for a process that has nothing else.
-/

namespace LineageA1000.Caps

open KernelCap

variable {env : Env} {fileCapsEnabled : Bool} {old : Cred} {file : ExecFile}

/-- `cap_bprm_secureexec`, called when the credentials have been committed. -/
def capBprmSecureexec (bprm : LinuxBinprm) (cred : Cred) : Int :=
  if cred.uid ≠ rootUid ∧ bprm.capEffective then 1
  else if cred.uid ≠ rootUid ∧ ¬ capIsclear cred.capPermitted then 1
  else if cred.euid ≠ cred.uid ∨ cred.egid ≠ cred.gid then 1
  else 0

/-- The upstream rule for a process that is not root: effective capabilities through the file, a
permitted capability that is not an ambient one, or changed ids. -/
def DistrustsEnvironment (bprm : LinuxBinprm) (cred : Cred) : Prop :=
  bprm.capEffective ∨ ¬ capIssubset cred.capPermitted cred.capAmbient ∨ cred.euid ≠ cred.uid ∨
    cred.egid ≠ cred.gid

instance (bprm : LinuxBinprm) (cred : Cred) : Decidable (DistrustsEnvironment bprm cred) :=
  inferInstanceAs (Decidable (_ ∨ _))

/-- The exec of a process whose real uid is not root is a secure one exactly by the rule. -/
def SecureexecExact (bprm : LinuxBinprm) : Prop :=
  bprm.cred.uid ≠ rootUid →
    (capBprmSecureexec bprm bprm.cred = 1 ↔ DistrustsEnvironment bprm bprm.cred)

instance (bprm : LinuxBinprm) : Decidable (SecureexecExact bprm) :=
  inferInstanceAs (Decidable (_ → _))

/-- The caller is not root and has ambient capabilities, and neither the file nor the ids give or
take anything: the file has no capabilities and is not set-uid-root, and the caller runs with its
real ids and goes on with them. -/
structure InheritsAmbientOnly (fileCapsEnabled : Bool) (old : Cred) (file : ExecFile) : Prop where
  uid : old.uid ≠ rootUid
  ambient : old.capAmbient ≠ capClear
  fileCaps : carriesCaps fileCapsEnabled (prepareBinprm old file) = false
  root : file.euid ≠ rootUid ∨ issecure old SECURE_NOROOT
  runs : ¬ RunsSetid old
  stays : IsSetid old file → DeniesIds old file.unsafeBits

/-! ### The rule on the sets -/

theorem capBprmSecureexec_eq_one_iff {bprm : LinuxBinprm} {cred : Cred}
    (huid : cred.uid ≠ rootUid) :
    capBprmSecureexec bprm cred = 1 ↔
      bprm.capEffective ∨ cred.capPermitted ≠ capClear ∨ cred.euid ≠ cred.uid ∨
        cred.egid ≠ cred.gid := by
  have hclear : capIsclear cred.capPermitted = true ↔ cred.capPermitted = capClear := by
    rw [capIsclear_iff, ← toSet_capClear]
    exact toSet_injective.eq_iff
  simp only [capBprmSecureexec, huid, ne_eq, not_false_eq_true, true_and, hclear]
  split
  · rename_i heff
    exact iff_of_true rfl (.inl heff)
  · rename_i heff
    split
    · rename_i hpermitted
      exact iff_of_true rfl (.inr (.inl hpermitted))
    · rename_i hpermitted
      rw [or_iff_right heff, or_iff_right hpermitted]
      split
      · rename_i hids
        exact iff_of_true rfl hids
      · rename_i hids
        exact iff_of_false (by decide) hids

/-- The two rules differ on a process that has permitted capabilities, all of them ambient, and
nothing else that makes its exec a secure one. -/
theorem secureexecExact_iff {bprm : LinuxBinprm} (huid : bprm.cred.uid ≠ rootUid) :
    SecureexecExact bprm ↔
      ¬ (bprm.capEffective = false ∧ bprm.cred.capPermitted ≠ capClear ∧
        bprm.cred.capPermitted.toSet ⊆ bprm.cred.capAmbient.toSet ∧
        bprm.cred.euid = bprm.cred.uid ∧ bprm.cred.egid = bprm.cred.gid) := by
  have hempty : bprm.cred.capPermitted = capClear →
      bprm.cred.capPermitted.toSet ⊆ bprm.cred.capAmbient.toSet := by
    intro h
    rw [h, toSet_capClear]
    exact Set.empty_subset _
  rw [SecureexecExact, forall_prop_of_true huid, capBprmSecureexec_eq_one_iff huid,
    DistrustsEnvironment, capIssubset_iff]
  cases bprm.capEffective
  · tauto
  · simp

/-! ### The sets after the exec -/

/-- What a successful exec commits. -/
theorem capBprmSetCreds_ok
    (hret : (capBprmSetCreds env fileCapsEnabled old (prepareBinprm old file)).1 = 0) :
    ∃ f, getFileCaps fileCapsEnabled (prepareBinprm old file) = .ok f ∧
      (capBprmSetCreds env fileCapsEnabled old (prepareBinprm old file)).2.capEffective =
        (rootFixup old f).effective ∧
      ∃ securebits, (capBprmSetCreds env fileCapsEnabled old (prepareBinprm old file)).2.cred =
        { execCred old file.unsafeBits f with securebits := securebits } := by
  cases hcaps : getFileCaps fileCapsEnabled (prepareBinprm old file) with
  | error ret =>
      simp only [capBprmSetCreds, hcaps] at hret
      exact absurd hret (getFileCaps_error_ne_zero hcaps)
  | ok f =>
      refine ⟨f, rfl, ?_⟩
      simp only [capBprmSetCreds, hcaps]
      split
      · exact ⟨rfl, (execCred old file.unsafeBits f).securebits, rfl⟩
      · exact ⟨rfl, _, rfl⟩

theorem getVfsCapsFromDisk_revision {x : XattrCaps} {caps : CpuVfsCapData}
    (h : getVfsCapsFromDisk x = .ok caps) : caps.magicEtc &&& VFS_CAP_REVISION_MASK ≠ 0 := by
  simp only [getVfsCapsFromDisk, ite_error_eq_ok] at h
  obtain ⟨-, -, -, -, h⟩ := h
  split at h
  · rename_i hrevision
    obtain ⟨-, h⟩ := ite_error_eq_ok.1 h
    cases h
    rw [hrevision]
    decide
  · split at h
    · rename_i hrevision
      obtain ⟨-, h⟩ := ite_error_eq_ok.1 h
      cases h
      rw [hrevision]
      decide
    · cases h

/-- A file whose capabilities do not count leaves the permitted set empty and raises nothing. -/
theorem getFileCaps_of_hasCap_eq_false {bprm : LinuxBinprm} {f : FileCaps}
    (h : getFileCaps fileCapsEnabled bprm = .ok f) (hcap : f.hasCap = false) :
    f = ⟨bprmClearCaps bprm.cred, false, false⟩ := by
  simp only [getFileCaps] at h
  split at h
  · cases h
    rfl
  split at h
  · cases h
    rfl
  split at h
  · simp only [ite_eq_ok_of_error, Except.ok.injEq] at h
    exact h.2.symm
  · rename_i vcaps hdisk
    have hrevision := getVfsCapsFromDisk_revision hdisk
    simp only [bprmCapsFromVfsCaps, ite_error_eq_ok, Except.ok.injEq] at h
    obtain ⟨-, rfl⟩ := h
    exact absurd hcap (by simpa using hrevision)

/-- Root's rules give such a file effective capabilities only where its effective uid is root, and
otherwise leave the permitted set of a non-root process empty. -/
theorem rootFixup_of_hasCap_eq_false {f : FileCaps} (hcap : f.hasCap = false)
    (heff : f.effective = false) (hpermitted : f.cred.capPermitted = capClear)
    (huid : f.cred.uid ≠ rootUid) :
    ((rootFixup old f).effective = false ↔
      f.cred.euid ≠ rootUid ∨ issecure old SECURE_NOROOT = true) ∧
    ((rootFixup old f).effective = false → (rootFixup old f).cred.capPermitted = capClear) := by
  rw [rootFixup]
  split
  · rename_i hnoroot
    exact ⟨iff_of_true heff (.inr hnoroot), fun _ => hpermitted⟩
  · rename_i hroot
    rw [if_neg (by rw [hcap]; simp), or_iff_left hroot]
    dsimp only
    by_cases heuid : f.cred.euid = rootUid
    · rw [if_pos (.inl heuid), heuid]
      simp
    · rw [if_neg (by rw [not_or]; exact ⟨heuid, huid⟩), heff]
      simp [heuid, hpermitted]

theorem downgrade_permitted_of_clear (unsafeBits : BitVec 32) {new : Cred}
    (h : new.capPermitted = capClear) : (downgrade old unsafeBits new).capPermitted = capClear := by
  have hempty : capIntersect new.capPermitted old.capPermitted = capClear := by
    apply toSet_injective
    rw [toSet_capIntersect, h, toSet_capClear, Set.empty_inter]
  rw [downgrade]
  split
  · split <;> exact hempty
  · exact h

/-- The effective uid after the exec, and the effective gid below. -/
def settledEuid (old : Cred) (file : ExecFile) : Kuid :=
  if DeniesIds old file.unsafeBits then old.uid else file.euid

def settledEgid (old : Cred) (file : ExecFile) : Kgid :=
  if DeniesIds old file.unsafeBits then old.gid else file.egid

/-- The credentials a successful exec commits, as far as the rule reads them. -/
structure Committed (old : Cred) (file : ExecFile) (f : FileCaps) (bprm : LinuxBinprm) : Prop where
  capEffective : bprm.capEffective = (rootFixup old f).effective
  uid : bprm.cred.uid = old.uid
  gid : bprm.cred.gid = old.gid
  euid : bprm.cred.euid = settledEuid old file
  egid : bprm.cred.egid = settledEgid old file
  permitted : bprm.cred.capPermitted =
    if f.hasCap ∨ settledEuid old file ≠ old.euid ∨ settledEgid old file ≠ old.egid then
      (downgrade old file.unsafeBits (rootFixup old f).cred).capPermitted
    else
      capCombine (downgrade old file.unsafeBits (rootFixup old f).cred).capPermitted old.capAmbient
  ambient : bprm.cred.capAmbient =
    if f.hasCap ∨ settledEuid old file ≠ old.euid ∨ settledEgid old file ≠ old.egid then capClear
    else old.capAmbient

theorem mergeAmbient_keeps (old : Cred) (hasCap : Bool) (new : Cred) :
    (mergeAmbient old hasCap new).uid = new.uid ∧ (mergeAmbient old hasCap new).gid = new.gid ∧
      (mergeAmbient old hasCap new).euid = new.euid ∧
      (mergeAmbient old hasCap new).egid = new.egid := by
  rw [mergeAmbient]
  split <;> exact ⟨rfl, rfl, rfl, rfl⟩

theorem mergeAmbient_permitted (old : Cred) (hasCap : Bool) (new : Cred) :
    (mergeAmbient old hasCap new).capPermitted =
      if hasCap ∨ new.euid ≠ old.euid ∨ new.egid ≠ old.egid then new.capPermitted
      else capCombine new.capPermitted new.capAmbient := by
  rw [mergeAmbient]
  split <;> rfl

theorem execCred_committed {f : FileCaps}
    (hf : getFileCaps fileCapsEnabled (prepareBinprm old file) = .ok f) {bprm : LinuxBinprm}
    {securebits : BitVec 32} (heff : bprm.capEffective = (rootFixup old f).effective)
    (hcred : bprm.cred = { execCred old file.unsafeBits f with securebits := securebits }) :
    Committed old file f bprm := by
  have hbase : SameBase (rootFixup old f).cred (prepareBinprm old file).cred :=
    (rootFixup_sameBase old f).trans (getFileCaps_sameBase hf)
  have hdown := (downgrade_sameBase old file.unsafeBits (rootFixup old f).cred).trans hbase
  obtain ⟨heuid, hegid⟩ :=
    downgrade_ids_eq old file.unsafeBits (rootFixup old f).cred hbase.uid hbase.gid
  rw [(rootFixup_ids old f).1, (getFileCaps_ids hf).1] at heuid
  rw [(rootFixup_ids old f).2, (getFileCaps_ids hf).2] at hegid
  -- The credentials that the ambient stage starts from.
  obtain ⟨n, hn⟩ : ∃ n, n = selectEffective (rootFixup old f).effective
      (settleIds (downgrade old file.unsafeBits (rootFixup old f).cred)) := ⟨_, rfl⟩
  have hnEuid : n.euid = settledEuid old file := by
    rw [hn]
    exact heuid
  have hnEgid : n.egid = settledEgid old file := by
    rw [hn]
    exact hegid
  have hnAmbient : n.capAmbient = old.capAmbient := by
    rw [hn]
    exact hdown.ambient
  have hnPermitted : n.capPermitted =
      (downgrade old file.unsafeBits (rootFixup old f).cred).capPermitted := by
    rw [hn]
    rfl
  obtain ⟨huid, hgid, heuid', hegid'⟩ := mergeAmbient_keeps old f.hasCap n
  have hmerged : execCred old file.unsafeBits f = mergeAmbient old f.hasCap n := by
    rw [execCred, hn, rootFixup_hasCap]
  rw [hmerged] at hcred
  apply Committed.mk heff
  · rw [hcred]
    exact huid.trans (by rw [hn]; exact hdown.uid)
  · rw [hcred]
    exact hgid.trans (by rw [hn]; exact hdown.gid)
  · rw [hcred]
    exact heuid'.trans hnEuid
  · rw [hcred]
    exact hegid'.trans hnEgid
  · rw [hcred, ← hnEuid, ← hnEgid, ← hnPermitted, ← hnAmbient]
    exact mergeAmbient_permitted old f.hasCap n
  · rw [hcred, ← hnEuid, ← hnEgid, ← hnAmbient]
    exact mergeAmbient_ambient old f.hasCap n

/-! ### The exec -/

/-- The ids a non-root caller goes on with are the ones it has in effect and its real ones exactly
when it runs with its real ids and stays with them. -/
theorem settled_iff (old : Cred) (file : ExecFile) :
    (settledEuid old file = old.euid ∧ settledEgid old file = old.egid) ∧
        settledEuid old file = old.uid ∧ settledEgid old file = old.gid ↔
      ¬ RunsSetid old ∧ (IsSetid old file → DeniesIds old file.unsafeBits) := by
  rw [RunsSetid, IsSetid, settledEuid, settledEgid]
  by_cases hdenies : DeniesIds old file.unsafeBits
  · simp only [hdenies, if_true, implies_true, and_true, ne_eq]
    tauto
  · simp only [hdenies, if_false, imp_false, ne_eq]
    constructor
    · rintro ⟨⟨heuid, hegid⟩, huid, hgid⟩
      rw [← heuid, ← hegid]
      exact ⟨by rw [huid, hgid]; simp, by rw [huid, hgid]; simp⟩
    · rintro ⟨hruns, hstays⟩
      simp only [not_or, not_not] at hruns hstays
      exact ⟨⟨hstays.1.trans hruns.1, hstays.2.trans hruns.2⟩, hstays⟩

/-- Of a file without capabilities what root's rules say is all. -/
theorem plain_caps (huid : old.uid ≠ rootUid) {f : FileCaps}
    (hf : getFileCaps fileCapsEnabled (prepareBinprm old file) = .ok f) (hcap : f.hasCap = false) :
    ((rootFixup old f).effective = false ↔
      file.euid ≠ rootUid ∨ issecure old SECURE_NOROOT = true) ∧
    ((rootFixup old f).effective = false →
      (downgrade old file.unsafeBits (rootFixup old f).cred).capPermitted = capClear) := by
  have hf' := getFileCaps_of_hasCap_eq_false hf hcap
  obtain ⟨heff, hpermitted⟩ := @rootFixup_of_hasCap_eq_false old f hcap
    (by rw [hf']) (by rw [hf']; rfl) (by rw [hf']; exact huid)
  rw [(getFileCaps_ids hf).1] at heff
  exact ⟨heff, fun h => downgrade_permitted_of_clear _ (hpermitted h)⟩

theorem capClear_capCombine (s : KernelCap) : capCombine capClear s = s := by
  apply toSet_injective
  rw [toSet_capCombine, toSet_capClear, Set.empty_union]

/-- The rules differ on a committed exec exactly when the process only inherits its ambient set. -/
theorem committed_differs_iff (huid : old.uid ≠ rootUid) {f : FileCaps}
    (hf : getFileCaps fileCapsEnabled (prepareBinprm old file) = .ok f) {bprm : LinuxBinprm}
    (h : Committed old file f bprm) :
    (bprm.capEffective = false ∧ bprm.cred.capPermitted ≠ capClear ∧
        bprm.cred.capPermitted.toSet ⊆ bprm.cred.capAmbient.toSet ∧
        bprm.cred.euid = bprm.cred.uid ∧ bprm.cred.egid = bprm.cred.gid) ↔
      InheritsAmbientOnly fileCapsEnabled old file := by
  have hcarries : carriesCaps fileCapsEnabled (prepareBinprm old file) = f.hasCap := by
    rw [carriesCaps, hf]
  rw [h.capEffective, h.permitted, h.ambient, h.euid, h.egid, h.uid, h.gid]
  constructor
  · rintro ⟨heff, hpermitted, hsub, heuid, hegid⟩
    split at hpermitted
    · rename_i hdropped
      -- The ambient set is dropped, and nothing else is permitted.
      rw [if_pos hdropped, if_pos hdropped, toSet_capClear, Set.subset_empty_iff,
        ← toSet_capClear] at hsub
      exact absurd (toSet_injective hsub) hpermitted
    · rename_i hkept
      rw [not_or, not_or, not_not, not_not, Bool.not_eq_true] at hkept
      obtain ⟨hcap, hids⟩ := hkept
      obtain ⟨heffIff, hclear⟩ := plain_caps huid hf hcap
      rw [hclear heff, capClear_capCombine] at hpermitted
      obtain ⟨hruns, hstays⟩ := (settled_iff old file).1 ⟨hids, heuid, hegid⟩
      apply InheritsAmbientOnly.mk huid hpermitted
      · rw [hcarries, hcap]
      · exact heffIff.1 heff
      · exact hruns
      · exact hstays
  · intro hinherits
    have hcap : f.hasCap = false := by rw [← hcarries, hinherits.fileCaps]
    obtain ⟨hids, heuid, hegid⟩ := (settled_iff old file).2 ⟨hinherits.runs, hinherits.stays⟩
    have hkept : ¬ (f.hasCap = true ∨ settledEuid old file ≠ old.euid ∨
        settledEgid old file ≠ old.egid) := by
      rw [hcap, hids.1, hids.2]
      simp
    obtain ⟨heffIff, hclear⟩ := plain_caps huid hf hcap
    have heff := heffIff.2 hinherits.root
    rw [if_neg hkept, if_neg hkept, hclear heff, capClear_capCombine]
    exact ⟨heff, hinherits.ambient, subset_rfl, heuid, hegid⟩

/-- After a successful exec `cap_bprm_secureexec` follows the rule exactly when the process is not
one that only inherits its ambient set. -/
theorem secureexec_exact_iff (env : Env) (fileCapsEnabled : Bool) (old : Cred) (file : ExecFile)
    (hret : (capBprmSetCreds env fileCapsEnabled old (prepareBinprm old file)).1 = 0) :
    SecureexecExact (capBprmSetCreds env fileCapsEnabled old (prepareBinprm old file)).2 ↔
      ¬ InheritsAmbientOnly fileCapsEnabled old file := by
  obtain ⟨f, hf, heff, securebits, hcred⟩ := capBprmSetCreds_ok hret
  have hcommitted := execCred_committed hf heff hcred
  by_cases huid : old.uid = rootUid
  · apply iff_of_true
    · intro hne
      exact absurd (hcommitted.uid.trans huid) hne
    · intro hinherits
      exact hinherits.uid huid
  · have huid' : (capBprmSetCreds env fileCapsEnabled old (prepareBinprm old file)).2.cred.uid ≠
        rootUid := by
      rw [hcommitted.uid]
      exact huid
    rw [secureexecExact_iff huid', committed_differs_iff huid hf hcommitted]

theorem secureexec_exact_iff_plain :
    SecureexecExact (capBprmSetCreds .quiet true netRawService
        (prepareBinprm netRawService (plainFile 1000 1001))).2 ↔
      ¬ InheritsAmbientOnly true netRawService (plainFile 1000 1001) :=
  secureexec_exact_iff .quiet true netRawService (plainFile 1000 1001) (by decide)

/-- A service that holds `CAP_NET_RAW` through the ambient set executes an ordinary file, and the
loader is told to distrust its environment. -/
theorem secureexec_of_ambient_service :
    ¬ ∀ (env : Env) (fileCapsEnabled : Bool) (old : Cred) (file : ExecFile), AmbientInv old →
      (capBprmSetCreds env fileCapsEnabled old (prepareBinprm old file)).1 = 0 →
      SecureexecExact (capBprmSetCreds env fileCapsEnabled old (prepareBinprm old file)).2 := by
  intro hall
  have hexact := hall .quiet true netRawService (plainFile 1000 1000) (by decide) (by decide)
  revert hexact
  decide

end LineageA1000.Caps
