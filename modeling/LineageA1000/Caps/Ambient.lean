import LineageA1000.Lib.Run
import LineageA1000.Caps.SetId
import LineageA1000.Caps.Exec
import LineageA1000.Caps.Prctl

/-!
# The ambient set over whole runs

A task's credentials under every system call that changes capability sets, in any order and with any
arguments. All of them keep `pA ⊆ pP ∩ pI` but one: a set*uid call that drops root clears the
permitted set and leaves the ambient set behind, and the next exec adds it back. The run theorem
says that this is the only way the invariant is ever lost.
-/

namespace LineageA1000.Caps

open KernelCap

/-- The executable an `execve` names: the ids its set-id bits put into the proposed credentials, and
the rest of its `linux_binprm`. -/
structure ExecFile where
  euid : Kuid
  egid : Kgid
  unsafeBits : Word
  mntNosuid : Bool
  xattr : XattrCaps
  deriving DecidableEq

inductive CredOp
  | capset (effective inheritable permitted : KernelCap)
  | prctl (option arg2 arg3 arg4 arg5 : Word)
  | setuid (uid : Kuid)
  | setreuid (ruid euid : Kuid)
  | setresuid (ruid euid suid : Kuid)
  | setfsuid (uid : Kuid)
  | execve (fileCapsEnabled : Bool) (file : ExecFile)
  deriving DecidableEq

structure CredStep where
  env : Env
  op : CredOp
  deriving DecidableEq

/-- `prepare_binprm`: a copy of the caller's credentials with the ids of the set-id bits. -/
def prepareBinprm (old : Cred) (file : ExecFile) : LinuxBinprm where
  cred := { old with euid := file.euid, egid := file.egid }
  unsafeBits := file.unsafeBits
  capEffective := false
  perClearOnSetid := false
  mntNosuid := file.mntNosuid
  xattr := file.xattr

/-- The exec commits the proposed credentials when `cap_bprm_set_creds` returns `0`. -/
def execve (env : Env) (fileCapsEnabled : Bool) (old : Cred) (file : ExecFile) : Cred :=
  let r := capBprmSetCreds env fileCapsEnabled old (prepareBinprm old file)
  if r.1 = 0 then r.2.cred else old

def CredStep.apply (old : Cred) (s : CredStep) : Cred :=
  match s.op with
  | .capset e i p => (capCapset old e i p).2
  | .prctl option arg2 arg3 arg4 arg5 => sysPrctl s.env old option arg2 arg3 arg4 arg5
  | .setuid uid => setidCall old .id (setuidIds s.env old uid)
  | .setreuid ruid euid => setidCall old .re (setreuidIds s.env old ruid euid)
  | .setresuid ruid euid suid => setidCall old .res (setresuidIds s.env old ruid euid suid)
  | .setfsuid uid => setidCall old .fs (setfsuidIds s.env old uid)
  | .execve fileCapsEnabled file => execve s.env fileCapsEnabled old file

/-- The ids that a `setuid`, `setreuid` or `setresuid` call is granted. -/
def CredStep.grantedIds (old : Cred) (s : CredStep) : Option Cred :=
  match s.op with
  | .setuid uid => (setuidIds s.env old uid).toOption
  | .setreuid ruid euid => (setreuidIds s.env old ruid euid).toOption
  | .setresuid ruid euid suid => (setresuidIds s.env old ruid euid suid).toOption
  | _ => none

/-- The step is not a granted set*uid call that drops root while the ambient set is non-empty. -/
def KeepsAmbient (old : Cred) (s : CredStep) : Prop :=
  ∀ new ∈ s.grantedIds old, DropsRoot old new → old.capAmbient = capClear

instance (old : Cred) (s : CredStep) : Decidable (KeepsAmbient old s) :=
  inferInstanceAs (Decidable (∀ new ∈ s.grantedIds old, _))

/-- The capabilities that an `execve` step hands over through the ambient set were permitted before
it. They are the ambient set after the exec, which is the set that was merged or is empty. -/
def ExecAmbientPermitted (old : Cred) (s : CredStep) : Prop :=
  match s.op with
  | .execve .. => (s.apply old).capAmbient.toSet ⊆ old.capPermitted.toSet
  | _ => True

/-! ### One step -/

theorem ambientInv_setidCall_iff {old : Cred} (hold : AmbientInv old) {flags : SetidFlags}
    (hflags : flags ≠ .fs) {asked : Except Int Cred}
    (huids : ∀ new, asked = .ok new → OnlyUids new old) :
    AmbientInv (setidCall old flags asked) ↔
      ∀ new ∈ asked.toOption, DropsRoot old new → old.capAmbient = capClear := by
  cases asked with
  | error e => simpa [setidCall, Except.toOption] using hold
  | ok new =>
      have hclear : old.capAmbient = capClear ↔ old.capAmbient.toSet = ∅ := by
        rw [← toSet_capClear, toSet_injective.eq_iff]
      simp only [setidCall, Except.toOption, Option.mem_def, Option.some.injEq, forall_eq', hclear]
      exact ambientInv_fixSetuid_iff hflags hold (huids new rfl)

theorem ambientInv_setfsuid {old : Cred} (hold : AmbientInv old) (env : Env) (uid : Kuid) :
    AmbientInv (setidCall old .fs (setfsuidIds env old uid)) := by
  cases hasked : setfsuidIds env old uid with
  | error e => exact hold
  | ok new => exact ambientInv_fixSetuid_fs hold (setfsuidIds_onlyUids hasked)

theorem execve_spec {old : Cred} (hold : AmbientInv old) (env : Env) (fileCapsEnabled : Bool)
    (file : ExecFile) :
    AmbientInv (execve env fileCapsEnabled old file) ∧
      (execve env fileCapsEnabled old file).capAmbient.toSet ⊆ old.capAmbient.toSet := by
  simp only [execve]
  split
  · rename_i hret
    have hres := capBprmSetCreds_result hret
    have hinh := hres.inheritable
    have hamb : _ ⊆ old.capAmbient.toSet := hres.ambient
    refine ⟨Set.subset_inter hres.ambientPermitted ?_, hamb⟩
    rw [hinh]
    exact hamb.trans hold.inheritable
  · exact ⟨hold, subset_rfl⟩

/-- One system call keeps the ambient invariant exactly when it meets `KeepsAmbient`. -/
theorem ambientInv_apply_iff (old : Cred) (s : CredStep) (hold : AmbientInv old) :
    AmbientInv (s.apply old) ↔ KeepsAmbient old s := by
  obtain ⟨env, op⟩ := s
  have hnone {P : Prop} (hP : P) {o : Option Cred} (ho : o = none) {Q : Cred → Prop} :
      P ↔ ∀ new ∈ o, Q new := by
    subst ho
    exact ⟨fun _ _ hmem => absurd hmem (Option.not_mem_none _), fun _ => hP⟩
  cases op with
  | capset e i p => exact hnone (ambientInv_capCapset hold e i p) rfl
  | prctl option arg2 arg3 arg4 arg5 => exact hnone (ambientInv_sysPrctl hold env _ _ _ _ _) rfl
  | setuid uid =>
      exact ambientInv_setidCall_iff hold (by decide) fun new h => setuidIds_onlyUids h
  | setreuid ruid euid =>
      exact ambientInv_setidCall_iff hold (by decide) fun new h => setreuidIds_onlyUids h
  | setresuid ruid euid suid =>
      exact ambientInv_setidCall_iff hold (by decide) fun new h => setresuidIds_onlyUids h
  | setfsuid uid => exact hnone (ambientInv_setfsuid hold env uid) rfl
  | execve fileCapsEnabled file =>
      exact hnone (execve_spec hold env fileCapsEnabled file).1 rfl

theorem execAmbientPermitted_of_ambientInv (old : Cred) (s : CredStep) (hold : AmbientInv old) :
    ExecAmbientPermitted old s := by
  obtain ⟨env, op⟩ := s
  cases op with
  | execve fileCapsEnabled file =>
      exact (execve_spec hold env fileCapsEnabled file).2.trans hold.permitted
  | _ => trivial

/-! ### Runs -/

/-- A run keeps the ambient invariant in every state, and hands no capability over an exec that was
no longer permitted, if and only if none of its calls drops root with a non-empty ambient set. -/
theorem ambient_invariant_iff_keepsAmbient (start : Cred) (calls : List CredStep)
    (hstart : AmbientInv start) :
    (Run.Always CredStep.apply AmbientInv start calls ∧
      Run.EachStep CredStep.apply ExecAmbientPermitted start calls) ↔
    Run.EachStep CredStep.apply KeepsAmbient start calls := by
  rw [← Run.always_iff_eachStep ambientInv_apply_iff hstart]
  exact ⟨And.left, fun h => ⟨h, Run.eachStep_of_always execAmbientPermitted_of_ambientInv h⟩⟩

/-- A root daemon that raised `CAP_NET_RAW` into its ambient set. -/
def rootDaemon : Cred :=
  { netRawService with uid := 0, gid := 0, suid := 0, sgid := 0, euid := 0, egid := 0, fsuid := 0,
                       fsgid := 0, capPermitted := capFullSet, capEffective := capFullSet }

def plainFile (uid : Kuid) (gid : Kgid) : ExecFile where
  euid := uid
  egid := gid
  unsafeBits := 0
  mntNosuid := false
  xattr := ⟨false, 0, ⟨0, fun _ => 0, fun _ => 0⟩⟩

def Env.quiet : Env := ⟨true, true, 0⟩

theorem ambient_invariant_iff_keepsAmbient_service :
    Run.Always CredStep.apply AmbientInv netRawService
        [⟨.quiet, .prctl PR_CAP_AMBIENT PR_CAP_AMBIENT_RAISE 13 0 0⟩,
          ⟨.quiet, .execve true (plainFile 1000 1000)⟩] ∧
      Run.EachStep CredStep.apply ExecAmbientPermitted netRawService
        [⟨.quiet, .prctl PR_CAP_AMBIENT PR_CAP_AMBIENT_RAISE 13 0 0⟩,
          ⟨.quiet, .execve true (plainFile 1000 1000)⟩] :=
  (ambient_invariant_iff_keepsAmbient netRawService _ (by decide)).2 (by decide)

/-- The daemon drops to uid 1000 and executes a plain file: `setuid` clears the permitted set, the
ambient set stays, and the exec makes `CAP_NET_RAW` permitted and effective again. -/
theorem setuid_keeps_ambient_behind :
    ¬ ∀ (start : Cred) (calls : List CredStep), AmbientInv start →
      Run.Always CredStep.apply AmbientInv start calls ∧
        Run.EachStep CredStep.apply ExecAmbientPermitted start calls := by
  intro hall
  have hrun := (hall rootDaemon
    [⟨.quiet, .setuid 1000⟩, ⟨.quiet, .execve true (plainFile 1000 0)⟩] (by decide)).1
  have hafter : AmbientInv (CredStep.apply rootDaemon ⟨.quiet, .setuid 1000⟩) := hrun.2.1
  revert hafter
  decide

end LineageA1000.Caps
