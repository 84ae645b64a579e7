import LineageA1000.Caps.Cap
import LineageA1000.Lib.Errno

/-!
# Credentials

`struct cred` with the fields the capability module reads or writes, the securebits tests, and the
ambient invariant that the back-port states for it. The kernel is built without user namespaces, so
`make_kuid` is the identity and root is uid `0`.
-/

namespace LineageA1000.Caps

abbrev Kuid := BitVec 32
abbrev Kgid := BitVec 32

def invalidUid : Kuid := BitVec.allOnes 32

def rootUid : Kuid := 0

structure Cred where
  uid : Kuid
  gid : Kgid
  suid : Kuid
  sgid : Kgid
  euid : Kuid
  egid : Kgid
  fsuid : Kuid
  fsgid : Kgid
  groupInfo : List Kgid
  securebits : BitVec 32
  capInheritable : KernelCap
  capPermitted : KernelCap
  capEffective : KernelCap
  capBset : KernelCap
  capAmbient : KernelCap
  deriving DecidableEq

/-! ### Securebits -/

def SECURE_NOROOT : Nat := 0
def SECURE_NO_SETUID_FIXUP : Nat := 2
def SECURE_KEEP_CAPS : Nat := 4
def SECURE_KEEP_CAPS_LOCKED : Nat := 5

def issecureMask (x : Nat) : BitVec 32 := 1#32 <<< x

/-- `issecure` reads the securebits of the current task, which are those of the old credentials. -/
def issecure (current : Cred) (x : Nat) : Bool := current.securebits &&& issecureMask x != 0

def SECURE_ALL_BITS : BitVec 32 :=
  issecureMask SECURE_NOROOT ||| issecureMask SECURE_NO_SETUID_FIXUP |||
    issecureMask SECURE_KEEP_CAPS

def SECURE_ALL_LOCKS : BitVec 32 := SECURE_ALL_BITS <<< 1

/-! ### Capability checks of the current task -/

def AID_NET_RAW : Kgid := 3004
def AID_NET_ADMIN : Kgid := 3005

def inEgroupP (current : Cred) (grp : Kgid) : Bool :=
  current.egid = grp || current.groupInfo.contains grp

/-- `cap_capable` of the current task in the initial namespace: `0` or `-EPERM`. -/
def capCapable (current : Cred) (cap : Fin 64) : Int :=
  if cap = CAP_NET_RAW ∧ inEgroupP current AID_NET_RAW then 0
  else if cap = CAP_NET_ADMIN ∧ inEgroupP current AID_NET_ADMIN then 0
  else if capRaised current.capEffective cap then 0 else -EPERM

def capable (current : Cred) (cap : Fin 64) : Bool := capCapable current cap = 0

/-- What the environment decides during a system call: whether `prepare_creds` and `alloc_uid` find
memory, and what `audit_log_bprm_fcaps` returns. -/
structure Env where
  prepareCredsOk : Bool
  allocUidOk : Bool
  auditRet : Int
  deriving DecidableEq

/-! ### The ambient invariant -/

/-- `pA ⊆ pP ∩ pI`, the invariant the ambient back-port keeps in `cap_capset`. -/
def AmbientInv (c : Cred) : Prop :=
  c.capAmbient.toSet ⊆ c.capPermitted.toSet ∩ c.capInheritable.toSet

theorem ambientInv_iff (c : Cred) :
    AmbientInv c ↔
      capIssubset c.capAmbient (capIntersect c.capPermitted c.capInheritable) = true := by
  rw [capIssubset_iff, toSet_capIntersect, AmbientInv]

instance (c : Cred) : Decidable (AmbientInv c) := decidable_of_iff _ (ambientInv_iff c).symm

theorem AmbientInv.permitted {c : Cred} (h : AmbientInv c) :
    c.capAmbient.toSet ⊆ c.capPermitted.toSet := fun _ hp => (h hp).1

theorem AmbientInv.inheritable {c : Cred} (h : AmbientInv c) :
    c.capAmbient.toSet ⊆ c.capInheritable.toSet := fun _ hp => (h hp).2

theorem AmbientInv.congr {c d : Cred} (h : AmbientInv c) (hA : d.capAmbient = c.capAmbient)
    (hP : d.capPermitted = c.capPermitted) (hI : d.capInheritable = c.capInheritable) :
    AmbientInv d := by
  rw [AmbientInv, hA, hP, hI]
  exact h

end LineageA1000.Caps
