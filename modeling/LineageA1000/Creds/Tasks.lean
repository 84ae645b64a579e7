import LineageA1000.Caps.Exec
import LineageA1000.Lib.RefCount
import LineageA1000.Lib.Run

/-!
# Credentials that tasks share

Credentials are counted. The threads of a process point to one set, files keep the set they were
opened with, and kernel services hold sets to work under. Nobody writes to a set in use: a call that
changes its task's credentials fills in a copy and commits it. A task that works under other
credentials for a while saves those it had. Using a set that was freed, or running into a `BUG_ON`,
gives `none`.

Counts do not wrap. `user` is the entry of the real uid, as `set_user` keeps it, so a set's user is
its uid. Dumpability and notifications, which no count depends on, are left out.
-/

namespace LineageA1000.Creds

open Caps RefCount

abbrev CredId := Nat

def initCred : CredId := 0

/-- The credentials a task points to, the copy that a call of it fills in, and the sets that
`revert_creds` is to bring back, the last one saved first. -/
structure Task where
  realCred : CredId
  cred : CredId
  building : Option CredId
  saved : List CredId
  deriving DecidableEq, Repr

/-- A ledger that the kernel does not keep, `elsewhere`, says how many references are held by other
things than tasks. -/
structure System (Tid : Type*) where
  creds : RefCount.Table CredId
  content : CredId → Cred
  processes : Kuid → Int
  alive : Finset Tid
  task : Tid → Task
  elsewhere : CredId → Nat

variable {Tid : Type*}

/-- `init_cred`. -/
def rootCred : Cred where
  uid := rootUid
  gid := 0
  suid := rootUid
  sgid := 0
  euid := rootUid
  egid := 0
  fsuid := rootUid
  fsgid := 0
  groupInfo := []
  securebits := 0
  capInheritable := capClear
  capPermitted := capFullSet
  capEffective := capFullSet
  capBset := capFullSet
  capAmbient := capClear

/-- The first task, with `init_cred`. -/
def booted (init : Tid) : System Tid where
  creds := ⟨{initCred}, fun _ => 4⟩
  content _ := rootCred
  processes u := if u = rootUid then 1 else 0
  alive := {init}
  task _ := ⟨initCred, initCred, none, []⟩
  elsewhere c := if c = initCred then 2 else 0

/-! ### Operations -/

def getCred (s : System Tid) (c : CredId) : Option (System Tid) :=
  if c ∈ s.creds.live then some { s with creds := s.creds.get c } else none

/-- `put_cred`, with the `BUG_ON`s of `__put_cred`. -/
def putCred (s : System Tid) (current : Tid) (c : CredId) : Option (System Tid) :=
  if c ∉ s.creds.live then none
  else if s.creds.ref c = 1 ∧ ((s.task current).cred = c ∨ (s.task current).realCred = c) then none
  else some { s with creds := s.creds.put c }

/-- `atomic_inc` and `atomic_dec` of `user->processes`. -/
def countProcess (processes : Kuid → Int) (u : Kuid) (n : Int) : Kuid → Int :=
  Function.update processes u (processes u + n)

/-- `prepare_creds` at the fresh address `c`. -/
def prepareCreds (s : System Tid) (t : Tid) (c : CredId) : Option (System Tid) :=
  if (s.task t).cred ∈ s.creds.live then
    some { s with
      creds := s.creds.init c
      content := Function.update s.content c (s.content (s.task t).cred) }
  else none

variable [DecidableEq Tid]

def System.setTask (s : System Tid) (t : Tid) (p : Task) : System Tid :=
  { s with task := Function.update s.task t p }

/-- `commit_creds`. -/
def commitCreds (s : System Tid) (t : Tid) (new : CredId) : Option (System Tid) :=
  let old := (s.task t).realCred
  if (s.task t).cred ≠ old then none
  else do
    let s ← getCred s new
    let s := { s with
      processes := if (s.content new).uid ≠ (s.content old).uid then
          countProcess (countProcess s.processes (s.content new).uid 1) (s.content old).uid (-1)
        else s.processes }
    let s := s.setTask t { s.task t with realCred := new, cred := new, building := none }
    let s ← putCred s t old
    putCred s t old

def overrideCreds (s : System Tid) (t : Tid) (new : CredId) : Option (System Tid) := do
  let s ← getCred s new
  let p := s.task t
  some (s.setTask t { p with cred := new, saved := p.cred :: p.saved })

/-- `revert_creds`; `old` is what the override gave back. -/
def revertCreds (s : System Tid) (t : Tid) (old : CredId) (rest : List CredId) :
    Option (System Tid) :=
  let override := (s.task t).cred
  putCred (s.setTask t { s.task t with cred := old, saved := rest }) t override

/-- `copy_creds` for the new task `u` of `t`: a thread shares the credentials, another task gets a
copy at `c`, unless there is no memory. -/
def copyCreds (s : System Tid) (t u : Tid) (thread : Bool) (c : Option CredId) :
    Option (System Tid) :=
  if thread then do
    let shared := (s.task t).cred
    let s ← getCred s shared
    let s ← getCred s shared
    some { s.setTask u ⟨shared, shared, none, []⟩ with
      processes := countProcess s.processes (s.content shared).uid 1
      alive := insert u s.alive }
  else
    match c with
    | none => some s
    | some new => do
        let s ← prepareCreds s t new
        let s ← getCred s new
        some { s.setTask u ⟨new, new, none, []⟩ with
          processes := countProcess s.processes (s.content new).uid 1
          alive := insert u s.alive }

/-- `exit_creds` of a task that is gone, after `release_task` has taken it out of its user's
processes. -/
def exitCreds (s : System Tid) (current t : Tid) : Option (System Tid) := do
  let p := s.task t
  let s := { s with
    processes := countProcess s.processes (s.content p.realCred).uid (-1)
    alive := s.alive.erase t }
  let s ← putCred s current p.realCred
  putCred s current p.cred

/-- `prepare_kernel_cred` at the fresh address `c`, for a daemon or after `init_cred`; the caller
changes what it likes. -/
def prepareKernelCred (s : System Tid) (current : Tid) (daemon : Option Tid) (c : CredId)
    (edit : Cred → Cred) : Option (System Tid) := do
  let old := daemon.elim initCred fun d => (s.task d).realCred
  let s ← getCred s old
  let s : System Tid := { s with
    creds := s.creds.init c
    content := Function.update s.content c (edit (s.content old)) }
  let s ← putCred s current old
  some { s with elsewhere := Function.update s.elsewhere c (s.elsewhere c + 1) }

/-! ### Events -/

/-- What may happen: a call prepares a copy (`none` where there is no memory), fills it in and
commits it, or gives it up; a service keeps the copy it has filled in, works under credentials that
it holds, and goes back; a task is made, or gone; a reference is taken for a file or for another's
use, and dropped. -/
inductive Event (Tid : Type*) where
  | prepare (t : Tid) (c : Option CredId)
  | commit (t : Tid) (edit : Cred → Cred)
  | abort (t : Tid)
  | keep (t : Tid) (edit : Cred → Cred)
  | kernelCred (t : Tid) (daemon : Option Tid) (c : CredId) (edit : Cred → Cred)
  | override (t : Tid) (c : CredId)
  | revert (t : Tid)
  | fork (t u : Tid) (thread : Bool) (c : Option CredId)
  | exit (current t : Tid)
  | pin (t : Tid) (objective : Bool)
  | unpin (current : Tid) (c : CredId)

def System.setContent (s : System Tid) (c : CredId) (new : Cred) : System Tid :=
  { s with content := Function.update s.content c new }

def step (s : System Tid) : Event Tid → Option (System Tid)
  | .prepare t c =>
      match c with
      | none => some s
      | some c =>
          (prepareCreds s t c).map fun s => s.setTask t { s.task t with building := some c }
  | .commit t edit =>
      match (s.task t).building with
      | none => some s
      | some new => commitCreds (s.setContent new (edit (s.content new))) t new
  | .abort t =>
      match (s.task t).building with
      | none => some s
      | some new => putCred (s.setTask t { s.task t with building := none }) t new
  | .keep t edit =>
      match (s.task t).building with
      | none => some s
      | some new =>
          some { (s.setContent new (edit (s.content new))).setTask t
              { s.task t with building := none } with
            elsewhere := Function.update s.elsewhere new (s.elsewhere new + 1) }
  | .kernelCred t daemon c edit => prepareKernelCred s t daemon c edit
  | .override t c => overrideCreds s t c
  | .revert t =>
      match (s.task t).saved with
      | [] => some s
      | old :: rest => revertCreds s t old rest
  | .fork t u thread c => copyCreds s t u thread c
  | .exit current t => exitCreds s current t
  | .pin t objective =>
      let c := if objective then (s.task t).realCred else (s.task t).cred
      (getCred s c).map fun s =>
        { s with elsewhere := Function.update s.elsewhere c (s.elsewhere c + 1) }
  | .unpin current c =>
      putCred { s with elsewhere := Function.update s.elsewhere c (s.elsewhere c - 1) } current c

def next (s : System Tid) (e : Event Tid) : System Tid := (step s e).getD s

/-- Addresses are fresh and acting tasks alive. A call in progress is finished before the next or an
override, and a task that works under other credentials goes back before it commits or exits, as
`commit_creds` asks. Who overrides or drops a reference has one; `init_cred` keeps its own two. -/
def Possible (s : System Tid) : Event Tid → Prop
  | .prepare t c => t ∈ s.alive ∧ (s.task t).building = none ∧ ∀ x ∈ c, x ∉ s.creds.live
  | .commit t _ => t ∈ s.alive ∧ (s.task t).saved = []
  | .abort t => t ∈ s.alive
  | .keep t _ => t ∈ s.alive
  | .kernelCred t daemon c _ => t ∈ s.alive ∧ (∀ d ∈ daemon, d ∈ s.alive) ∧ c ∉ s.creds.live
  | .override t c => t ∈ s.alive ∧ (s.task t).building = none ∧ s.elsewhere c ≠ 0
  | .revert t => t ∈ s.alive ∧ (s.task t).building = none
  | .fork t u _ c => t ∈ s.alive ∧ u ∉ s.alive ∧ ∀ x ∈ c, x ∉ s.creds.live
  | .exit current t => current ∈ s.alive ∧ t ∈ s.alive ∧ current ≠ t ∧
      (s.task t).building = none ∧ (s.task t).saved = []
  | .pin t _ => t ∈ s.alive
  | .unpin current c => current ∈ s.alive ∧ (if c = initCred then 2 else 0) < s.elsewhere c

instance decidablePossible (s : System Tid) : ∀ e, Decidable (Possible s e)
  | .prepare t c => inferInstanceAs (Decidable
      (t ∈ s.alive ∧ (s.task t).building = none ∧ ∀ x ∈ c, x ∉ s.creds.live))
  | .commit t _ => inferInstanceAs (Decidable (t ∈ s.alive ∧ (s.task t).saved = []))
  | .abort t | .keep t _ | .pin t _ => inferInstanceAs (Decidable (t ∈ s.alive))
  | .kernelCred t daemon c _ => inferInstanceAs (Decidable
      (t ∈ s.alive ∧ (∀ d ∈ daemon, d ∈ s.alive) ∧ c ∉ s.creds.live))
  | .override t c => inferInstanceAs (Decidable
      (t ∈ s.alive ∧ (s.task t).building = none ∧ s.elsewhere c ≠ 0))
  | .revert t => inferInstanceAs (Decidable (t ∈ s.alive ∧ (s.task t).building = none))
  | .fork t u _ c => inferInstanceAs (Decidable
      (t ∈ s.alive ∧ u ∉ s.alive ∧ ∀ x ∈ c, x ∉ s.creds.live))
  | .exit current t => inferInstanceAs (Decidable (current ∈ s.alive ∧ t ∈ s.alive ∧ current ≠ t ∧
      (s.task t).building = none ∧ (s.task t).saved = []))
  | .unpin current c => inferInstanceAs (Decidable
      (current ∈ s.alive ∧ (if c = initCred then 2 else 0) < s.elsewhere c))

end LineageA1000.Creds
