import LineageA1000.Caps.Cred

/-!
# The set*uid system calls

`setuid`, `setreuid`, `setresuid` and `setfsuid`: each computes the ids it asks for, and the
capability module then adjusts the capability sets in `cap_task_fix_setuid`. What a call does to the
ambient set is stated once, for whatever ids it asks for.
-/

namespace LineageA1000.Caps

open KernelCap

inductive SetidFlags
  | id
  | re
  | res
  | fs
  deriving DecidableEq

/-- `CAP_FS_SET`, the capabilities that follow the fsuid. -/
def capFsSet : KernelCap :=
  ⟨fun i => if i = 0 then 0x0800021F else 0x00000001⟩

def capDropFsSet (a : KernelCap) : KernelCap := capDrop a capFsSet

def capRaiseFsSet (a permitted : KernelCap) : KernelCap :=
  capCombine a (capIntersect permitted capFsSet)

def hasRootId (c : Cred) : Bool := c.uid = rootUid || c.euid = rootUid || c.suid = rootUid

def capEmulateSetxuid (new old : Cred) : Cred :=
  let new :=
    if hasRootId old ∧ ¬ hasRootId new ∧ ¬ issecure old SECURE_KEEP_CAPS then
      { new with capPermitted := capClear, capEffective := capClear }
    else new
  let new :=
    if old.euid = rootUid ∧ new.euid ≠ rootUid then { new with capEffective := capClear } else new
  if old.euid ≠ rootUid ∧ new.euid = rootUid then
    { new with capEffective := new.capPermitted }
  else new

def capTaskFixSetuid (new old : Cred) (flags : SetidFlags) : Cred :=
  match flags with
  | .re | .id | .res =>
      if issecure old SECURE_NO_SETUID_FIXUP then new else capEmulateSetxuid new old
  | .fs =>
      if issecure old SECURE_NO_SETUID_FIXUP then new
      else
        let new :=
          if old.fsuid = rootUid ∧ new.fsuid ≠ rootUid then
            { new with capEffective := capDropFsSet new.capEffective }
          else new
        if old.fsuid ≠ rootUid ∧ new.fsuid = rootUid then
          { new with capEffective := capRaiseFsSet new.capEffective new.capPermitted }
        else new

/-! ### The ids each call asks for

Each function is the body of the system call up to `security_task_fix_setuid`: the credentials with
the new ids, or the error the call returns. -/

def uidValid (uid : Kuid) : Bool := uid ≠ invalidUid

def setUser (env : Env) : Int := if env.allocUidOk then 0 else -EAGAIN

def setreuidIds (env : Env) (old : Cred) (ruid euid : Kuid) : Except Int Cred :=
  let asksR := ruid ≠ invalidUid
  let asksE := euid ≠ invalidUid
  if asksR ∧ ¬ uidValid ruid then .error (-EINVAL)
  else if asksE ∧ ¬ uidValid euid then .error (-EINVAL)
  else if ¬ env.prepareCredsOk then .error (-ENOMEM)
  else if asksR ∧ old.uid ≠ ruid ∧ old.euid ≠ ruid ∧ ¬ capable old CAP_SETUID then .error (-EPERM)
  else if asksE ∧ old.uid ≠ euid ∧ old.euid ≠ euid ∧ old.suid ≠ euid ∧
      ¬ capable old CAP_SETUID then .error (-EPERM)
  else
    let uid' := if asksR then ruid else old.uid
    let euid' := if asksE then euid else old.euid
    if uid' ≠ old.uid ∧ setUser env < 0 then .error (setUser env)
    else
      let suid' := if asksR ∨ (asksE ∧ euid ≠ old.uid) then euid' else old.suid
      .ok { old with uid := uid', euid := euid', suid := suid', fsuid := euid' }

def setuidIds (env : Env) (old : Cred) (uid : Kuid) : Except Int Cred :=
  if ¬ uidValid uid then .error (-EINVAL)
  else if ¬ env.prepareCredsOk then .error (-ENOMEM)
  else if capable old CAP_SETUID then
    if uid ≠ old.uid ∧ setUser env < 0 then .error (setUser env)
    else .ok { old with uid := uid, suid := uid, euid := uid, fsuid := uid }
  else if uid ≠ old.uid ∧ uid ≠ old.suid then .error (-EPERM)
  else .ok { old with euid := uid, fsuid := uid }

def setresuidIds (env : Env) (old : Cred) (ruid euid suid : Kuid) : Except Int Cred :=
  let asksR := ruid ≠ invalidUid
  let asksE := euid ≠ invalidUid
  let asksS := suid ≠ invalidUid
  let foreign (uid : Kuid) := uid ≠ old.uid ∧ uid ≠ old.euid ∧ uid ≠ old.suid
  if asksR ∧ ¬ uidValid ruid then .error (-EINVAL)
  else if asksE ∧ ¬ uidValid euid then .error (-EINVAL)
  else if asksS ∧ ¬ uidValid suid then .error (-EINVAL)
  else if ¬ env.prepareCredsOk then .error (-ENOMEM)
  else if ¬ capable old CAP_SETUID ∧ asksR ∧ foreign ruid then .error (-EPERM)
  else if ¬ capable old CAP_SETUID ∧ asksE ∧ foreign euid then .error (-EPERM)
  else if ¬ capable old CAP_SETUID ∧ asksS ∧ foreign suid then .error (-EPERM)
  else if asksR ∧ ruid ≠ old.uid ∧ setUser env < 0 then .error (setUser env)
  else
    let euid' := if asksE then euid else old.euid
    .ok { old with
      uid := if asksR then ruid else old.uid
      euid := euid'
      suid := if asksS then suid else old.suid
      fsuid := euid' }

/-- `setfsuid` returns the old fsuid in every case; an error here is a call that changes nothing. -/
def setfsuidIds (env : Env) (old : Cred) (uid : Kuid) : Except Int Cred :=
  if ¬ uidValid uid then .error (-EINVAL)
  else if ¬ env.prepareCredsOk then .error (-ENOMEM)
  else if (uid = old.uid ∨ uid = old.euid ∨ uid = old.suid ∨ uid = old.fsuid ∨
      capable old CAP_SETUID) ∧ uid ≠ old.fsuid then .ok { old with fsuid := uid }
  else .error (-EPERM)

/-- The call as a whole: the ids asked for, fixed up and committed, or nothing. -/
def setidCall (old : Cred) (flags : SetidFlags) (asked : Except Int Cred) : Cred :=
  match asked with
  | .error _ => old
  | .ok new => capTaskFixSetuid new old flags

/-! ### What a call changes -/

def OnlyUids (new old : Cred) : Prop :=
  new = { old with uid := new.uid, suid := new.suid, euid := new.euid, fsuid := new.fsuid }

theorem setreuidIds_onlyUids {env : Env} {old new : Cred} {ruid euid : Kuid}
    (h : setreuidIds env old ruid euid = .ok new) : OnlyUids new old := by
  simp only [setreuidIds, ite_error_eq_ok, Except.ok.injEq] at h
  obtain ⟨-, -, -, -, -, -, rfl⟩ := h
  rfl

theorem setuidIds_onlyUids {env : Env} {old new : Cred} {uid : Kuid}
    (h : setuidIds env old uid = .ok new) : OnlyUids new old := by
  simp only [setuidIds, ite_error_eq_ok] at h
  obtain ⟨-, -, hids⟩ := h
  split at hids
  · simp only [ite_error_eq_ok, Except.ok.injEq] at hids
    obtain ⟨-, rfl⟩ := hids
    rfl
  · simp only [ite_error_eq_ok, Except.ok.injEq] at hids
    obtain ⟨-, rfl⟩ := hids
    rfl

theorem setresuidIds_onlyUids {env : Env} {old new : Cred} {ruid euid suid : Kuid}
    (h : setresuidIds env old ruid euid suid = .ok new) : OnlyUids new old := by
  simp only [setresuidIds, ite_error_eq_ok, Except.ok.injEq] at h
  obtain ⟨-, -, -, -, -, -, -, -, rfl⟩ := h
  rfl

theorem setfsuidIds_onlyUids {env : Env} {old new : Cred} {uid : Kuid}
    (h : setfsuidIds env old uid = .ok new) : OnlyUids new old := by
  simp only [setfsuidIds, ite_error_eq_ok, ite_eq_ok_of_error, Except.ok.injEq] at h
  obtain ⟨-, -, -, rfl⟩ := h
  rfl

/-- The calls that clear the permitted set: one of the old uids is root, none of the new ones is,
and no securebit suppresses the fixup. -/
def DropsRoot (old new : Cred) : Prop :=
  hasRootId old = true ∧ hasRootId new = false ∧ issecure old SECURE_KEEP_CAPS = false ∧
    issecure old SECURE_NO_SETUID_FIXUP = false

instance (old new : Cred) : Decidable (DropsRoot old new) :=
  inferInstanceAs (Decidable (_ ∧ _ ∧ _ ∧ _))

@[simp] theorem capEmulateSetxuid_ambient (new old : Cred) :
    (capEmulateSetxuid new old).capAmbient = new.capAmbient := by
  simp only [capEmulateSetxuid]
  repeat' split
  all_goals rfl

@[simp] theorem capEmulateSetxuid_inheritable (new old : Cred) :
    (capEmulateSetxuid new old).capInheritable = new.capInheritable := by
  simp only [capEmulateSetxuid]
  repeat' split
  all_goals rfl

theorem capEmulateSetxuid_permitted (new old : Cred) :
    (capEmulateSetxuid new old).capPermitted =
      if hasRootId old ∧ ¬ hasRootId new ∧ ¬ issecure old SECURE_KEEP_CAPS then capClear
      else new.capPermitted := by
  simp only [capEmulateSetxuid]
  repeat' split
  all_goals rfl

theorem capTaskFixSetuid_ambient (new old : Cred) (flags : SetidFlags) :
    (capTaskFixSetuid new old flags).capAmbient = new.capAmbient := by
  cases flags <;> simp only [capTaskFixSetuid] <;> repeat' split
  all_goals first
    | rfl
    | exact capEmulateSetxuid_ambient new old

theorem capTaskFixSetuid_inheritable (new old : Cred) (flags : SetidFlags) :
    (capTaskFixSetuid new old flags).capInheritable = new.capInheritable := by
  cases flags <;> simp only [capTaskFixSetuid] <;> repeat' split
  all_goals first
    | rfl
    | exact capEmulateSetxuid_inheritable new old

theorem capTaskFixSetuid_permitted (new old : Cred) {flags : SetidFlags} (hflags : flags ≠ .fs) :
    (capTaskFixSetuid new old flags).capPermitted =
      if DropsRoot old new then capClear else new.capPermitted := by
  have hbody : capTaskFixSetuid new old flags =
      if issecure old SECURE_NO_SETUID_FIXUP then new else capEmulateSetxuid new old := by
    cases flags <;> first | rfl | exact absurd rfl hflags
  rw [hbody]
  by_cases hfix : issecure old SECURE_NO_SETUID_FIXUP = true
  · rw [if_pos hfix, if_neg]
    intro hdrop
    rw [hdrop.2.2.2] at hfix
    exact Bool.false_ne_true hfix
  · rw [if_neg hfix, capEmulateSetxuid_permitted]
    simp only [DropsRoot, Bool.not_eq_true] at hfix ⊢
    simp only [hfix, and_true]

theorem capTaskFixSetuid_permitted_fs (new old : Cred) :
    (capTaskFixSetuid new old .fs).capPermitted = new.capPermitted := by
  simp only [capTaskFixSetuid]
  repeat' split
  all_goals rfl

/-- A set*uid call keeps the ambient invariant exactly when it does not drop root with a non-empty
ambient set: the fixup clears the permitted set and leaves the ambient set as it was. -/
theorem ambientInv_fixSetuid_iff {old new : Cred} {flags : SetidFlags} (hflags : flags ≠ .fs)
    (hold : AmbientInv old) (huids : OnlyUids new old) :
    AmbientInv (capTaskFixSetuid new old flags) ↔
      (DropsRoot old new → old.capAmbient.toSet = ∅) := by
  have hA : new.capAmbient = old.capAmbient := by rw [huids]
  have hI : new.capInheritable = old.capInheritable := by rw [huids]
  have hP : new.capPermitted = old.capPermitted := by rw [huids]
  rw [AmbientInv, capTaskFixSetuid_ambient, capTaskFixSetuid_inheritable,
    capTaskFixSetuid_permitted new old hflags, hA, hI, hP]
  by_cases hdrop : DropsRoot old new
  · simp [hdrop]
  · rw [if_neg hdrop]
    exact ⟨fun _ h => absurd h hdrop, fun _ => hold⟩

theorem ambientInv_fixSetuid_fs {old new : Cred} (hold : AmbientInv old)
    (huids : OnlyUids new old) : AmbientInv (capTaskFixSetuid new old .fs) := by
  refine hold.congr ?_ ?_ ?_
  · rw [capTaskFixSetuid_ambient, huids]
  · rw [capTaskFixSetuid_permitted_fs, huids]
  · rw [capTaskFixSetuid_inheritable, huids]

end LineageA1000.Caps
