import LineageA1000.Caps.Cred

/-!
# Credentials across execve

`cap_bprm_set_creds` and what it reads: the file capabilities in the extended attribute, the set-id
bits already applied to `bprm->cred`, the securebits and the unsafe bits of the exec. The function
computes the capability sets in stages, and each stage is a definition of its own with the few facts
the rest of the proof needs of it.
-/

namespace LineageA1000.Caps

open KernelCap

/-! ### File capabilities -/

def VFS_CAP_REVISION_MASK : BitVec 32 := 0xFF000000
def VFS_CAP_REVISION_1 : BitVec 32 := 0x01000000
def VFS_CAP_REVISION_2 : BitVec 32 := 0x02000000
def VFS_CAP_FLAGS_EFFECTIVE : BitVec 32 := 0x000001
def XATTR_CAPS_SZ_1 : Int := 12
def XATTR_CAPS_SZ_2 : Int := 20
def CAP_LAST_U32_VALID_MASK : BitVec 32 := 0x1F

structure VfsCapData where
  magicEtc : BitVec 32
  permitted : Mask 2 32
  inheritable : Mask 2 32
  deriving DecidableEq

/-- What the inode's `getxattr` answers: whether there is such an operation, the size it returns and
the bytes it writes. -/
structure XattrCaps where
  hasGetxattr : Bool
  size : Int
  caps : VfsCapData
  deriving DecidableEq

structure CpuVfsCapData where
  magicEtc : BitVec 32
  permitted : KernelCap
  inheritable : KernelCap

def copyWords (tocopy : Nat) (words : Mask 2 32) : KernelCap :=
  ⟨fun i =>
    let word := if i.val < tocopy then words i else 0
    if i = 1 then word &&& CAP_LAST_U32_VALID_MASK else word⟩

def getVfsCapsFromDisk (x : XattrCaps) : Except Int CpuVfsCapData :=
  if ¬ x.hasGetxattr then .error (-ENODATA)
  else if x.size = -ENODATA ∨ x.size = -EOPNOTSUPP then .error (-ENODATA)
  else if x.size < 0 then .error x.size
  else if x.size < 4 then .error (-EINVAL)
  else
    let revision := x.caps.magicEtc &&& VFS_CAP_REVISION_MASK
    let copied (tocopy : Nat) : CpuVfsCapData :=
      ⟨x.caps.magicEtc, copyWords tocopy x.caps.permitted, copyWords tocopy x.caps.inheritable⟩
    if revision = VFS_CAP_REVISION_1 then
      if x.size ≠ XATTR_CAPS_SZ_1 then .error (-EINVAL) else .ok (copied 1)
    else if revision = VFS_CAP_REVISION_2 then
      if x.size ≠ XATTR_CAPS_SZ_2 then .error (-EINVAL) else .ok (copied 2)
    else .error (-EINVAL)

structure LinuxBinprm where
  cred : Cred
  unsafeBits : BitVec 32
  capEffective : Bool
  perClearOnSetid : Bool
  mntNosuid : Bool
  xattr : XattrCaps
  deriving DecidableEq

structure FileCaps where
  cred : Cred
  effective : Bool
  hasCap : Bool

def bprmClearCaps (cred : Cred) : Cred := { cred with capPermitted := capClear }

/-- `bprm_caps_from_vfs_caps`: `pP' = (X & fP) | (pI & fI)`, refused when an effective file does not
get all it asks for. -/
def bprmCapsFromVfsCaps (caps : CpuVfsCapData) (new : Cred) : Except Int FileCaps :=
  let effective := caps.magicEtc &&& VFS_CAP_FLAGS_EFFECTIVE != 0
  let hasCap := caps.magicEtc &&& VFS_CAP_REVISION_MASK != 0
  let permitted : KernelCap :=
    capCombine (capIntersect new.capBset caps.permitted)
      (capIntersect new.capInheritable caps.inheritable)
  if effective ∧ ¬ capIssubset caps.permitted permitted then .error (-EPERM)
  else .ok ⟨{ new with capPermitted := permitted }, effective, hasCap⟩

def getFileCaps (fileCapsEnabled : Bool) (bprm : LinuxBinprm) : Except Int FileCaps :=
  let cleared := bprmClearCaps bprm.cred
  if ¬ fileCapsEnabled then .ok ⟨cleared, false, false⟩
  else if bprm.mntNosuid then .ok ⟨cleared, false, false⟩
  else
    match getVfsCapsFromDisk bprm.xattr with
    | .error rc => if rc = -ENODATA then .ok ⟨cleared, false, false⟩ else .error rc
    | .ok vcaps => bprmCapsFromVfsCaps vcaps cleared

/-! ### The stages of cap_bprm_set_creds -/

def LSM_UNSAFE_PTRACE_CAP : BitVec 32 := 4
def LSM_UNSAFE_NO_NEW_PRIVS : BitVec 32 := 8

/-- The root fixup: unless `SECURE_NOROOT`, root gets `bset | pI` and the effective flag, save for a
set-uid-root file with file capabilities run by someone else. -/
def rootFixup (old : Cred) (f : FileCaps) : FileCaps :=
  if issecure old SECURE_NOROOT then f
  else if f.hasCap ∧ f.cred.uid ≠ rootUid ∧ f.cred.euid = rootUid then f
  else
    let cred :=
      if f.cred.euid = rootUid ∨ f.cred.uid = rootUid then
        { f.cred with capPermitted := capCombine old.capBset old.capInheritable }
      else f.cred
    { f with cred := cred, effective := f.effective || (cred.euid = rootUid) }

def downgrade (old : Cred) (unsafeBits : BitVec 32) (new : Cred) : Cred :=
  if (new.euid ≠ old.uid ∨ new.egid ≠ old.gid ∨
      ¬ capIssubset new.capPermitted old.capPermitted) ∧
      unsafeBits &&& ~~~ LSM_UNSAFE_PTRACE_CAP ≠ 0 then
    let new :=
      if ¬ capable old CAP_SETUID ∨ unsafeBits &&& LSM_UNSAFE_NO_NEW_PRIVS ≠ 0 then
        { new with euid := new.uid, egid := new.gid }
      else new
    { new with capPermitted := capIntersect new.capPermitted old.capPermitted }
  else new

def settleIds (new : Cred) : Cred :=
  { new with suid := new.euid, fsuid := new.euid, sgid := new.egid, fsgid := new.egid }

def selectEffective (effective : Bool) (new : Cred) : Cred :=
  { new with capEffective := if effective then new.capPermitted else capClear }

/-- The back-ported ambient stage: dropped when the file grants capabilities or the effective ids
change, added to the permitted and effective sets otherwise. -/
def mergeAmbient (old : Cred) (hasCap : Bool) (new : Cred) : Cred :=
  if hasCap ∨ new.euid ≠ old.euid ∨ new.egid ≠ old.egid then { new with capAmbient := capClear }
  else
    { new with
      capPermitted := capCombine new.capPermitted new.capAmbient
      capEffective := capCombine new.capEffective new.capAmbient }

def capFullSet : KernelCap := ⟨fun _ => BitVec.allOnes 32⟩

/-- Whether the exec is audited: it leaves effective capabilities and is not root with
everything. -/
def auditsExec (old new : Cred) : Bool :=
  ! capIsclear new.capEffective &&
    (! capIssubset capFullSet new.capEffective || new.euid != rootUid || new.uid != rootUid ||
      issecure old SECURE_NOROOT)

def execCred (old : Cred) (unsafeBits : BitVec 32) (f : FileCaps) : Cred :=
  let r := rootFixup old f
  mergeAmbient old r.hasCap
    (selectEffective r.effective (settleIds (downgrade old unsafeBits r.cred)))

def capBprmSetCreds (env : Env) (fileCapsEnabled : Bool) (old : Cred) (bprm : LinuxBinprm) :
    Int × LinuxBinprm :=
  match getFileCaps fileCapsEnabled bprm with
  | .error ret => (ret, { bprm with cred := bprmClearCaps bprm.cred, capEffective := false })
  | .ok f =>
      let r := rootFixup old f
      let new := execCred old bprm.unsafeBits f
      let bprm' := { bprm with
        cred := new
        capEffective := r.effective
        perClearOnSetid :=
          bprm.perClearOnSetid || ! capIssubset r.cred.capPermitted old.capPermitted }
      if auditsExec old new ∧ env.auditRet < 0 then (env.auditRet, bprm')
      else (0, { bprm' with
        cred := { new with securebits := new.securebits &&& ~~~ issecureMask SECURE_KEEP_CAPS } })

/-! ### What each stage keeps -/

/-- `new` is `old` with other effective ids, permitted set and effective set: all that the stages
before the ambient one change, saved and file system ids apart. -/
structure SameBase (new old : Cred) : Prop where
  uid : new.uid = old.uid
  gid : new.gid = old.gid
  inheritable : new.capInheritable = old.capInheritable
  ambient : new.capAmbient = old.capAmbient

theorem SameBase.trans {a b c : Cred} (hab : SameBase a b) (hbc : SameBase b c) : SameBase a c :=
  ⟨hab.uid.trans hbc.uid, hab.gid.trans hbc.gid, hab.inheritable.trans hbc.inheritable,
    hab.ambient.trans hbc.ambient⟩

theorem bprmCapsFromVfsCaps_sameBase {caps : CpuVfsCapData} {new : Cred} {f : FileCaps}
    (h : bprmCapsFromVfsCaps caps new = .ok f) : SameBase f.cred new := by
  simp only [bprmCapsFromVfsCaps, ite_error_eq_ok, Except.ok.injEq] at h
  obtain ⟨-, rfl⟩ := h
  exact ⟨rfl, rfl, rfl, rfl⟩

theorem getFileCaps_sameBase {fileCapsEnabled : Bool} {bprm : LinuxBinprm} {f : FileCaps}
    (h : getFileCaps fileCapsEnabled bprm = .ok f) : SameBase f.cred bprm.cred := by
  have hcleared : SameBase (bprmClearCaps bprm.cred) bprm.cred := ⟨rfl, rfl, rfl, rfl⟩
  simp only [getFileCaps] at h
  split at h
  · injection h with h
    subst h
    exact hcleared
  split at h
  · injection h with h
    subst h
    exact hcleared
  split at h
  · simp only [ite_eq_ok_of_error, Except.ok.injEq] at h
    obtain ⟨-, rfl⟩ := h
    exact hcleared
  · exact (bprmCapsFromVfsCaps_sameBase h).trans hcleared

theorem getVfsCapsFromDisk_error_ne_zero {x : XattrCaps} {rc : Int}
    (h : getVfsCapsFromDisk x = .error rc) : rc ≠ 0 := by
  simp only [getVfsCapsFromDisk] at h
  repeat' split at h
  all_goals cases h
  all_goals first
    | decide
    | omega

theorem getFileCaps_error_ne_zero {fileCapsEnabled : Bool} {bprm : LinuxBinprm} {rc : Int}
    (h : getFileCaps fileCapsEnabled bprm = .error rc) : rc ≠ 0 := by
  simp only [getFileCaps] at h
  split at h
  · injection h
  split at h
  · injection h
  split at h
  · rename_i rc' hdisk
    split at h
    · injection h
    · injection h with h
      exact h ▸ getVfsCapsFromDisk_error_ne_zero hdisk
  · simp only [bprmCapsFromVfsCaps] at h
    split at h
    · injection h with h
      subst h
      decide
    · injection h

theorem rootFixup_sameBase (old : Cred) (f : FileCaps) :
    SameBase (rootFixup old f).cred f.cred := by
  simp only [rootFixup]
  repeat' split
  all_goals exact ⟨rfl, rfl, rfl, rfl⟩

theorem downgrade_sameBase (old : Cred) (unsafeBits : BitVec 32) (new : Cred) :
    SameBase (downgrade old unsafeBits new) new := by
  simp only [downgrade]
  repeat' split
  all_goals exact ⟨rfl, rfl, rfl, rfl⟩

/-- After the downgrade an unsafe exec has no capability the caller did not have. -/
theorem downgrade_permitted (old : Cred) {unsafeBits : BitVec 32} (new : Cred)
    (hbits : unsafeBits &&& ~~~ LSM_UNSAFE_PTRACE_CAP ≠ 0) :
    (downgrade old unsafeBits new).capPermitted.toSet ⊆ old.capPermitted.toSet := by
  rw [downgrade]
  split
  · split <;>
    · rw [toSet_capIntersect]
      exact Set.inter_subset_right
  · rename_i hkeep
    have hsub : capIssubset new.capPermitted old.capPermitted = true := by
      by_contra hnot
      exact hkeep ⟨Or.inr (Or.inr hnot), hbits⟩
    exact (capIssubset_iff _ _).1 hsub

/-- Under `NO_NEW_PRIVS` the effective ids after the downgrade are the caller's real ones. -/
theorem downgrade_ids (old : Cred) {unsafeBits : BitVec 32} (new : Cred)
    (huid : new.uid = old.uid) (hgid : new.gid = old.gid)
    (hnnp : unsafeBits &&& LSM_UNSAFE_NO_NEW_PRIVS ≠ 0) :
    (downgrade old unsafeBits new).euid = old.uid ∧
      (downgrade old unsafeBits new).egid = old.gid := by
  have hbits : unsafeBits &&& ~~~ LSM_UNSAFE_PTRACE_CAP ≠ 0 := by
    intro hzero
    apply hnnp
    have hmask : LSM_UNSAFE_NO_NEW_PRIVS =
        ~~~ LSM_UNSAFE_PTRACE_CAP &&& LSM_UNSAFE_NO_NEW_PRIVS := by
      decide
    rw [hmask, ← BitVec.and_assoc, hzero]
    exact BitVec.zero_and
  rw [downgrade]
  split
  · rw [if_pos (Or.inr hnnp)]
    exact ⟨huid, hgid⟩
  · rename_i hkeep
    constructor
    · by_contra hne
      exact hkeep ⟨Or.inl hne, hbits⟩
    · by_contra hne
      exact hkeep ⟨Or.inr (Or.inl hne), hbits⟩

theorem selectEffective_subset (effective : Bool) (new : Cred) :
    (selectEffective effective new).capEffective.toSet ⊆
      (selectEffective effective new).capPermitted.toSet := by
  cases effective with
  | true => exact subset_rfl
  | false =>
      change capClear.toSet ⊆ _
      rw [toSet_capClear]
      exact Set.empty_subset _

/-- The facts about the ambient stage: it keeps the ids and the inheritable set, adds at most the
ambient set to the permitted set, and leaves `pE ⊆ pP` and `pA ⊆ pP`. -/
theorem mergeAmbient_spec (old : Cred) (hasCap : Bool) (new : Cred)
    (heff : new.capEffective.toSet ⊆ new.capPermitted.toSet) :
    let m := mergeAmbient old hasCap new
    m.euid = new.euid ∧ m.egid = new.egid ∧ m.capInheritable = new.capInheritable ∧
      m.capAmbient.toSet ⊆ new.capAmbient.toSet ∧
      m.capPermitted.toSet ⊆ new.capPermitted.toSet ∪ new.capAmbient.toSet ∧
      m.capEffective.toSet ⊆ m.capPermitted.toSet ∧ m.capAmbient.toSet ⊆ m.capPermitted.toSet := by
  simp only [mergeAmbient]
  split
  · refine ⟨rfl, rfl, rfl, ?_, Set.subset_union_left, heff, ?_⟩ <;>
    · rw [toSet_capClear]
      exact Set.empty_subset _
  · refine ⟨rfl, rfl, rfl, subset_rfl, ?_, ?_, ?_⟩
    · rw [toSet_capCombine]
    · rw [toSet_capCombine, toSet_capCombine]
      exact Set.union_subset_union_left _ heff
    · rw [toSet_capCombine]
      exact Set.subset_union_right

/-! ### The exec as a whole -/

/-- What a successful exec leaves: the base fields of the proposed credentials, the permitted set
within the downgraded one and the ambient one, and the inclusions between the sets. -/
structure ExecResult (old : Cred) (bprm : LinuxBinprm) (new : Cred) : Prop where
  inheritable : new.capInheritable = bprm.cred.capInheritable
  ambient : new.capAmbient.toSet ⊆ bprm.cred.capAmbient.toSet
  effective : new.capEffective.toSet ⊆ new.capPermitted.toSet
  ambientPermitted : new.capAmbient.toSet ⊆ new.capPermitted.toSet
  downgraded : ∃ d : Cred, SameBase d bprm.cred ∧
    new.euid = (downgrade old bprm.unsafeBits d).euid ∧
    new.egid = (downgrade old bprm.unsafeBits d).egid ∧
    new.capPermitted.toSet ⊆
      (downgrade old bprm.unsafeBits d).capPermitted.toSet ∪ bprm.cred.capAmbient.toSet

theorem execCred_result (old : Cred) {bprm : LinuxBinprm} {f : FileCaps}
    (hf : SameBase f.cred bprm.cred) : ExecResult old bprm (execCred old bprm.unsafeBits f) := by
  have hr : SameBase (rootFixup old f).cred bprm.cred := (rootFixup_sameBase old f).trans hf
  have hd : SameBase (downgrade old bprm.unsafeBits (rootFixup old f).cred) bprm.cred :=
    (downgrade_sameBase old bprm.unsafeBits _).trans hr
  obtain ⟨heuid, hegid, hinh, hamb, hperm, heff, hambP⟩ :=
    mergeAmbient_spec old (rootFixup old f).hasCap _
      (selectEffective_subset (rootFixup old f).effective
        (settleIds (downgrade old bprm.unsafeBits (rootFixup old f).cred)))
  have hA : (selectEffective (rootFixup old f).effective
      (settleIds (downgrade old bprm.unsafeBits (rootFixup old f).cred))).capAmbient =
        bprm.cred.capAmbient := hd.ambient
  rw [hA] at hamb hperm
  exact ⟨hinh.trans hd.inheritable, hamb, heff, hambP, _, hr, heuid, hegid, hperm⟩

/-- A failing audit returns a negative number, so a return of `0` means that all stages ran. -/
theorem capBprmSetCreds_result {env : Env} {fileCapsEnabled : Bool} {old : Cred}
    {bprm : LinuxBinprm} (hret : (capBprmSetCreds env fileCapsEnabled old bprm).1 = 0) :
    ExecResult old bprm (capBprmSetCreds env fileCapsEnabled old bprm).2.cred := by
  cases hcaps : getFileCaps fileCapsEnabled bprm with
  | error ret =>
      simp only [capBprmSetCreds, hcaps] at hret
      exact absurd hret (getFileCaps_error_ne_zero hcaps)
  | ok f =>
      have hres := execCred_result old (getFileCaps_sameBase hcaps)
      simp only [capBprmSetCreds, hcaps] at hret ⊢
      split at hret
      · rename_i haudit
        have hneg : env.auditRet < 0 := haudit.2
        simp only at hret
        omega
      · rename_i haudit
        rw [if_neg haudit]
        exact ⟨hres.inheritable, hres.ambient, hres.effective, hres.ambientPermitted,
          hres.downgraded⟩

/-- Exec never gains privilege: an unsafe exec ends with no permitted capability the caller lacked,
`NO_NEW_PRIVS` pins the effective ids to the real ones, and every exec keeps `pE ⊆ pP`,
`pA ⊆ pP ∩ pI` and the inheritable set. -/
theorem exec_never_gains_privilege (env : Env) (fileCapsEnabled : Bool) (old : Cred)
    (bprm : LinuxBinprm) (hamb : AmbientInv old)
    (hcopy : bprm.cred = { old with euid := bprm.cred.euid, egid := bprm.cred.egid })
    (hret : (capBprmSetCreds env fileCapsEnabled old bprm).1 = 0) :
    let new := (capBprmSetCreds env fileCapsEnabled old bprm).2.cred
    (bprm.unsafeBits &&& ~~~ LSM_UNSAFE_PTRACE_CAP ≠ 0 →
      new.capPermitted.toSet ⊆ old.capPermitted.toSet) ∧
    (bprm.unsafeBits &&& LSM_UNSAFE_NO_NEW_PRIVS ≠ 0 → new.euid = old.uid ∧ new.egid = old.gid) ∧
    new.capEffective.toSet ⊆ new.capPermitted.toSet ∧
    new.capAmbient.toSet ⊆ new.capPermitted.toSet ∩ new.capInheritable.toSet ∧
    new.capInheritable = old.capInheritable := by
  intro new
  have hres : ExecResult old bprm new := capBprmSetCreds_result hret
  have hA : bprm.cred.capAmbient = old.capAmbient := by rw [hcopy]
  have hI : bprm.cred.capInheritable = old.capInheritable := by rw [hcopy]
  have hinh : new.capInheritable = old.capInheritable := hres.inheritable.trans hI
  have hsub : new.capAmbient.toSet ⊆ old.capAmbient.toSet := hA ▸ hres.ambient
  obtain ⟨d, hd, heuid, hegid, hperm⟩ := hres.downgraded
  refine ⟨fun hbits => ?_, fun hnnp => ?_, hres.effective, ?_, hinh⟩
  · refine hperm.trans (Set.union_subset (downgrade_permitted old d hbits) ?_)
    rw [hA]
    exact hamb.permitted
  · have huid : d.uid = old.uid := hd.uid.trans (by rw [hcopy])
    have hgid : d.gid = old.gid := hd.gid.trans (by rw [hcopy])
    rw [heuid, hegid]
    exact downgrade_ids old d huid hgid hnnp
  · rw [hinh]
    exact Set.subset_inter hres.ambientPermitted (hsub.trans hamb.inheritable)

/-- A service that runs as uid 1000 and holds `CAP_NET_RAW` through the ambient set. -/
def netRawService : Cred where
  uid := 1000
  gid := 1000
  suid := 1000
  sgid := 1000
  euid := 1000
  egid := 1000
  fsuid := 1000
  fsgid := 1000
  groupInfo := []
  securebits := 0
  capInheritable := capMask CAP_NET_RAW
  capPermitted := capMask CAP_NET_RAW
  capEffective := capMask CAP_NET_RAW
  capBset := capFullSet
  capAmbient := capMask CAP_NET_RAW

def plainExec (cred : Cred) : LinuxBinprm where
  cred := cred
  unsafeBits := LSM_UNSAFE_NO_NEW_PRIVS
  capEffective := false
  perClearOnSetid := false
  mntNosuid := false
  xattr := ⟨false, 0, ⟨0, fun _ => 0, fun _ => 0⟩⟩

theorem exec_never_gains_privilege_setuid_root :
    let old := netRawService
    let new := (capBprmSetCreds ⟨true, true, 0⟩ true old (plainExec { old with euid := 0 })).2.cred
    new.capPermitted.toSet ⊆ old.capPermitted.toSet ∧ (new.euid = old.uid ∧ new.egid = old.gid) ∧
      new.capEffective.toSet ⊆ new.capPermitted.toSet ∧
      new.capAmbient.toSet ⊆ new.capPermitted.toSet ∩ new.capInheritable.toSet ∧
      new.capInheritable = old.capInheritable := by
  obtain ⟨hperm, hids, hrest⟩ := exec_never_gains_privilege ⟨true, true, 0⟩ true netRawService
    (plainExec { netRawService with euid := 0 }) (by decide) (by decide) (by decide)
  exact ⟨hperm (by decide), hids (by decide), hrest⟩

end LineageA1000.Caps
