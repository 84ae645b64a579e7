import LineageA1000.Caps.Cred

/-!
# capset and prctl

The calls by which a task changes its own capability sets: `capset`, the prctls of the capability
module and the back-ported `PR_CAP_AMBIENT`. Each returns its result and the credentials after it.
-/

namespace LineageA1000.Caps

open KernelCap

/-- The inheritable set is limited to the old permitted one unless the task has `CAP_SETPCAP`. -/
def capInhIsCapped (current : Cred) : Bool := capCapable current CAP_SETPCAP ≠ 0

def capCapset (old : Cred) (effective inheritable permitted : KernelCap) : Int × Cred :=
  if capInhIsCapped old ∧
      ¬ capIssubset inheritable (capCombine old.capInheritable old.capPermitted) then (-EPERM, old)
  else if ¬ capIssubset inheritable (capCombine old.capInheritable old.capBset) then (-EPERM, old)
  else if ¬ capIssubset permitted old.capPermitted then (-EPERM, old)
  else if ¬ capIssubset effective permitted then (-EPERM, old)
  else
    (0, { old with
      capEffective := effective
      capInheritable := inheritable
      capPermitted := permitted
      capAmbient := capIntersect old.capAmbient (capIntersect permitted inheritable) })

/-! ### prctl -/

abbrev Word := BitVec 32

def PR_GET_KEEPCAPS : Word := 7
def PR_SET_KEEPCAPS : Word := 8
def PR_CAPBSET_READ : Word := 23
def PR_CAPBSET_DROP : Word := 24
def PR_GET_SECUREBITS : Word := 27
def PR_SET_SECUREBITS : Word := 28
def PR_CAP_AMBIENT : Word := 47
def PR_CAP_AMBIENT_IS_SET : Word := 1
def PR_CAP_AMBIENT_RAISE : Word := 2
def PR_CAP_AMBIENT_LOWER : Word := 3
def PR_CAP_AMBIENT_CLEAR_ALL : Word := 4

def validFlag (x : Word) (h : capValid x.toNat = true) : Fin 64 :=
  ⟨x.toNat, lt_of_le_of_lt (of_decide_eq_true h) (by decide)⟩

def capPrctlDrop (new : Cred) (current : Cred) (cap : Word) : Int × Cred :=
  if ¬ capable current CAP_SETPCAP then (-EPERM, new)
  else if h : capValid cap.toNat = true then
    (0, { new with capBset := capLower new.capBset (validFlag cap h) })
  else (-EINVAL, new)

/-- `cap_task_prctl`; `-ENOSYS` hands the option on to `sys_prctl`. -/
def capTaskPrctl (env : Env) (old : Cred) (option arg2 : Word) : Int × Cred :=
  if ¬ env.prepareCredsOk then (-ENOMEM, old)
  else if option = PR_CAPBSET_READ then
    if h : capValid arg2.toNat = true then
      ((if capRaised old.capBset (validFlag arg2 h) then 1 else 0), old)
    else (-EINVAL, old)
  else if option = PR_CAPBSET_DROP then capPrctlDrop old old arg2
  else if option = PR_SET_SECUREBITS then
    if ((old.securebits &&& SECURE_ALL_LOCKS) >>> 1) &&& (old.securebits ^^^ arg2) ≠ 0 ∨
        old.securebits &&& SECURE_ALL_LOCKS &&& ~~~ arg2 ≠ 0 ∨
        arg2 &&& ~~~ (SECURE_ALL_LOCKS ||| SECURE_ALL_BITS) ≠ 0 ∨
        capCapable old CAP_SETPCAP ≠ 0 then (-EPERM, old)
    else (0, { old with securebits := arg2 })
  else if option = PR_GET_SECUREBITS then (old.securebits.toInt, old)
  else if option = PR_GET_KEEPCAPS then
    ((if issecure old SECURE_KEEP_CAPS then 1 else 0), old)
  else if option = PR_SET_KEEPCAPS then
    if arg2.toNat > 1 then (-EINVAL, old)
    else if issecure old SECURE_KEEP_CAPS_LOCKED then (-EPERM, old)
    else if arg2 ≠ 0 then
      (0, { old with securebits := old.securebits ||| issecureMask SECURE_KEEP_CAPS })
    else (0, { old with securebits := old.securebits &&& ~~~ issecureMask SECURE_KEEP_CAPS })
  else (-ENOSYS, old)

/-- The `PR_CAP_AMBIENT` case of `sys_prctl`. -/
def prctlCapAmbient (env : Env) (old : Cred) (arg2 arg3 arg4 arg5 : Word) : Int × Cred :=
  if arg2 = PR_CAP_AMBIENT_CLEAR_ALL then
    if arg3 ||| arg4 ||| arg5 ≠ 0 then (-EINVAL, old)
    else if ¬ env.prepareCredsOk then (-ENOMEM, old)
    else (0, { old with capAmbient := capClear })
  else if h : capValid arg3.toNat = true ∧ arg4 ||| arg5 = 0 then
    let flag := validFlag arg3 h.1
    if arg2 = PR_CAP_AMBIENT_IS_SET then ((if capRaised old.capAmbient flag then 1 else 0), old)
    else if arg2 ≠ PR_CAP_AMBIENT_RAISE ∧ arg2 ≠ PR_CAP_AMBIENT_LOWER then (-EINVAL, old)
    else if arg2 = PR_CAP_AMBIENT_RAISE ∧
        (¬ capRaised old.capPermitted flag ∨ ¬ capRaised old.capInheritable flag) then (-EPERM, old)
    else if ¬ env.prepareCredsOk then (-ENOMEM, old)
    else if arg2 = PR_CAP_AMBIENT_RAISE then
      (0, { old with capAmbient := capRaise old.capAmbient flag })
    else (0, { old with capAmbient := capLower old.capAmbient flag })
  else (-EINVAL, old)

/-- The credentials after `sys_prctl`: the capability module first, then `PR_CAP_AMBIENT`. No other
option touches them. -/
def sysPrctl (env : Env) (old : Cred) (option arg2 arg3 arg4 arg5 : Word) : Cred :=
  let handled := capTaskPrctl env old option arg2
  if handled.1 ≠ -ENOSYS then handled.2
  else if option = PR_CAP_AMBIENT then (prctlCapAmbient env old arg2 arg3 arg4 arg5).2
  else old

/-! ### The ambient invariant -/

/-- A test of a system call: both answers keep the invariant. -/
theorem ambientInv_ite {c : Prop} [Decidable c] {a b : Int × Cred} (ha : c → AmbientInv a.2)
    (hb : ¬ c → AmbientInv b.2) : AmbientInv (if c then a else b).2 := by
  by_cases hc : c
  · rw [if_pos hc]
    exact ha hc
  · rw [if_neg hc]
    exact hb hc

/-- `capset` cuts the ambient set to what stays permitted and inheritable. -/
theorem ambientInv_capCapset {old : Cred} (h : AmbientInv old)
    (effective inheritable permitted : KernelCap) :
    AmbientInv (capCapset old effective inheritable permitted).2 := by
  rw [capCapset]
  refine ambientInv_ite (fun _ => h) fun _ => ?_
  refine ambientInv_ite (fun _ => h) fun _ => ?_
  refine ambientInv_ite (fun _ => h) fun _ => ?_
  refine ambientInv_ite (fun _ => h) fun _ => ?_
  rw [AmbientInv]
  simp only [toSet_capIntersect]
  exact Set.inter_subset_right

theorem ambientInv_capPrctlDrop {new : Cred} (h : AmbientInv new) (current : Cred) (cap : Word) :
    AmbientInv (capPrctlDrop new current cap).2 := by
  rw [capPrctlDrop]
  split
  · exact h
  split
  · exact h.congr rfl rfl rfl
  · exact h

theorem ambientInv_capTaskPrctl {old : Cred} (h : AmbientInv old) (env : Env)
    (option arg2 : Word) : AmbientInv (capTaskPrctl env old option arg2).2 := by
  rw [capTaskPrctl]
  refine ambientInv_ite (fun _ => h) fun _ => ?_
  refine ambientInv_ite (fun _ => ?_) fun _ => ?_
  · split <;> exact h
  refine ambientInv_ite (fun _ => ambientInv_capPrctlDrop h old arg2) fun _ => ?_
  -- the other options read or write the secure bits only
  refine ambientInv_ite (fun _ => ?_) fun _ => ?_
  · exact ambientInv_ite (fun _ => h) fun _ => h.congr rfl rfl rfl
  refine ambientInv_ite (fun _ => h) fun _ => ?_
  refine ambientInv_ite (fun _ => h) fun _ => ?_
  refine ambientInv_ite (fun _ => ?_) fun _ => h
  refine ambientInv_ite (fun _ => h) fun _ => ?_
  refine ambientInv_ite (fun _ => h) fun _ => ?_
  exact ambientInv_ite (fun _ => h.congr rfl rfl rfl) fun _ => h.congr rfl rfl rfl

/-- Raising asks for the capability in both sets; the other operations only shrink the set. -/
theorem ambientInv_prctlCapAmbient {old : Cred} (h : AmbientInv old) (env : Env)
    (arg2 arg3 arg4 arg5 : Word) : AmbientInv (prctlCapAmbient env old arg2 arg3 arg4 arg5).2 := by
  rw [prctlCapAmbient]
  refine ambientInv_ite (fun _ => ?_) fun _ => ?_
  · refine ambientInv_ite (fun _ => h) fun _ => ?_
    refine ambientInv_ite (fun _ => h) fun _ => ?_
    rw [AmbientInv, toSet_capClear]
    exact Set.empty_subset _
  split
  case isFalse => exact h
  case isTrue hvalid =>
    dsimp only
    refine ambientInv_ite (fun _ => h) fun _ => ?_
    refine ambientInv_ite (fun _ => h) fun _ => ?_
    refine ambientInv_ite (fun _ => h) fun hraised => ?_
    refine ambientInv_ite (fun _ => h) fun _ => ?_
    refine ambientInv_ite (fun hraise => ?_) fun _ => ?_
    · simp only [not_and, not_or, not_not] at hraised
      obtain ⟨hP, hI⟩ := hraised hraise
      rw [AmbientInv, toSet_capRaise]
      refine Set.union_subset h (Set.singleton_subset_iff.2 ⟨?_, ?_⟩)
      · exact (capRaised_iff _ _).1 hP
      · exact (capRaised_iff _ _).1 hI
    · rw [AmbientInv, toSet_capLower]
      exact Set.sdiff_subset.trans h

theorem ambientInv_sysPrctl {old : Cred} (h : AmbientInv old) (env : Env)
    (option arg2 arg3 arg4 arg5 : Word) :
    AmbientInv (sysPrctl env old option arg2 arg3 arg4 arg5) := by
  simp only [sysPrctl]
  split
  · exact ambientInv_capTaskPrctl h env option arg2
  split
  · exact ambientInv_prctlCapAmbient h env arg2 arg3 arg4 arg5
  · exact h

end LineageA1000.Caps
