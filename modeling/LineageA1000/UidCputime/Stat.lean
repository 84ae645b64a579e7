import LineageA1000.Lib.Run
import LineageA1000.Lib.Errno
import LineageA1000.UidCputime.Table
import Mathlib.Algebra.BigOperators.Group.List.Basic
import Mathlib.Tactic.Abel

/-!
# Time of a uid over whole runs

Tasks that are created, charged, exit and are reaped, and `show_uid_stat` read at any point. The
reported time of a uid is what the exit notifier added to its entry and what a walk over the threads
still on the list finds. Between its exit notifier and its reaping a task is in both parts, and a
tick in that span is in neither once the task is reaped; the run theorem says that apart from this,
a lost entry and the notifier's other time source every tick is reported exactly once.
-/

namespace LineageA1000.UidCputime

/-- A task before its exit notifier, between the notifier and its reaping (it is still on the thread
list), and after. -/
inductive Phase
  | running
  | exiting
  | reaped
  deriving DecidableEq

structure Task where
  uid : Uid
  utime : Cputime
  stime : Cputime
  phase : Phase
  deriving DecidableEq

def Task.times (t : Task) : Cputime × Cputime := (t.utime, t.stime)

structure Kernel where
  table : UidTable
  tasks : List Task

/-- The tasks that `do_each_thread` visits. -/
def Kernel.threads (s : Kernel) : List Task := s.tasks.filter fun t => t.phase ≠ .reaped

/-- `process_notifier`, with the times that `task_cputime_adjusted` returns for the task. -/
def processNotifier (T : UidTable) (alloc : Bool) (uid : Uid) (utime stime : Cputime) : UidTable :=
  match T.findOrRegisterUid alloc uid with
  | none => T
  | some T' =>
      T'.updateAt uid fun e => { e with utime := e.utime + utime, stime := e.stime + stime }

def clearActive (T : UidTable) : UidTable :=
  T.update fun e => { e with activeStime := 0, activeUtime := 0 }

/-- The walk of `uid_stat_show` over the threads; a failed `kzalloc` ends it. -/
def walkThreads (alloc : Uid → Bool) : UidTable → List Task → Except UidTable UidTable
  | T, [] => .ok T
  | T, t :: ts =>
      match T.findOrRegisterUid (alloc t.uid) t.uid with
      | none => .error T
      | some T' =>
          walkThreads alloc (T'.updateAt t.uid fun e =>
            { e with activeUtime := e.activeUtime + t.utime,
                     activeStime := e.activeStime + t.stime }) ts

structure StatLine where
  uid : Uid
  utime : Nat
  stime : Nat
  deriving DecidableEq

/-- Microseconds as they are printed; `cputime_to_jiffies` is the identity. -/
def usecs (jiffiesToMsecs : Nat → Nat) (c : Cputime) : Nat := jiffiesToMsecs c.toNat * 1000

def statLine (jiffiesToMsecs : Nat → Nat) (e : UidEntry) : StatLine where
  uid := e.uid
  utime := usecs jiffiesToMsecs (e.utime + e.activeUtime)
  stime := usecs jiffiesToMsecs (e.stime + e.activeStime)

def uidStatShow (jiffiesToMsecs : Nat → Nat) (alloc : Uid → Bool) (s : Kernel) :
    UidTable × Except Int (List StatLine) :=
  match walkThreads alloc (clearActive s.table) s.threads with
  | .error T => (T, .error (-ENOMEM))
  | .ok T => (T, .ok (T.entries.map (statLine jiffiesToMsecs)))

/-! ### Runs -/

inductive Event
  | create (uid : Uid)
  | tick (task : Nat) (utime stime : Cputime)
  | exit (task : Nat) (alloc : Bool) (utime stime : Cputime)
  | reap (task : Nat)
  | read (alloc : Uid → Bool)

/-- The kernel's state, and the time that the tasks of each uid have really consumed. -/
structure Traced extends Kernel where
  consumed : Uid → Nat × Nat

def Traced.start : Traced := ⟨⟨.empty, []⟩, fun _ => 0⟩

variable (jiffiesToMsecs : Nat → Nat)

def step (s : Traced) : Event → Traced
  | .create uid => { s with tasks := s.tasks ++ [⟨uid, 0, 0, .running⟩] }
  | .tick i utime stime =>
      match s.tasks[i]? with
      | none => s
      | some t =>
          { s with
            tasks := s.tasks.set i { t with utime := t.utime + utime, stime := t.stime + stime }
            consumed := fun uid =>
              if t.uid = uid then s.consumed uid + (utime.toNat, stime.toNat) else s.consumed uid }
  | .exit i alloc utime stime =>
      match s.tasks[i]? with
      | none => s
      | some t =>
          if t.phase = .running then
            { s with
              table := processNotifier s.table alloc t.uid utime stime
              tasks := s.tasks.set i { t with phase := .exiting } }
          else s
  | .reap i =>
      match s.tasks[i]? with
      | none => s
      | some t =>
          if t.phase = .exiting then { s with tasks := s.tasks.set i { t with phase := .reaped } }
          else s
  | .read alloc => { s with table := (uidStatShow jiffiesToMsecs alloc s.toKernel).1 }

/-- Each uid that ever had a task has one line, and each line has the time its uid has consumed. -/
def ReportsExactly (s : Traced) (lines : List StatLine) : Prop :=
  (lines.map StatLine.uid).Nodup ∧ (∀ t ∈ s.tasks, t.uid ∈ lines.map StatLine.uid) ∧
    ∀ line ∈ lines, line.utime = jiffiesToMsecs (s.consumed line.uid).1 * 1000 ∧
      line.stime = jiffiesToMsecs (s.consumed line.uid).2 * 1000

/-- A read that does not fail reports every uid exactly. -/
def ReadExact (s : Traced) : Event → Prop
  | .read alloc =>
      ∀ lines, (uidStatShow jiffiesToMsecs alloc s.toKernel).2 = .ok lines →
        ReportsExactly jiffiesToMsecs s lines
  | _ => True

/-- What the successful reads of a run report, in their order. -/
def reports : Traced → List Event → List (List StatLine)
  | _, [] => []
  | s, e :: es =>
      match e with
      | .read alloc =>
          match (uidStatShow jiffiesToMsecs alloc s.toKernel).2 with
          | .ok lines => lines :: reports (step jiffiesToMsecs s e) es
          | .error _ => reports (step jiffiesToMsecs s e) es
      | _ => reports (step jiffiesToMsecs s e) es

/-- No uid's time is less in the later report. -/
def NotDecreasing (lines lines' : List StatLine) : Prop :=
  ∀ line ∈ lines, ∀ line' ∈ lines', line.uid = line'.uid →
    line.utime ≤ line'.utime ∧ line.stime ≤ line'.stime

/-- The step loses and doubles no time: no tick behind the exit notifier, a notifier that gets its
entry and the task's own tick counts, and a read at which no exiting task has time and no uid's time
has outgrown the conversion. -/
def Counted (limit : Nat) (s : Traced) : Event → Prop
  | .tick i _ _ => ∀ t ∈ s.tasks[i]?, t.phase = .running
  | .exit i alloc utime stime =>
      ∀ t ∈ s.tasks[i]?, t.phase = .running →
        (s.table.Registered t.uid ∨ alloc = true) ∧ (utime, stime) = t.times
  | .read _ =>
      (∀ t ∈ s.tasks, t.phase = .exiting → t.times = 0) ∧
        ∀ uid, (s.consumed uid).1 < limit ∧ (s.consumed uid).2 < limit
  | _ => True

/-! ### Sums over tasks -/

/-- The sum of a weight over all tasks. -/
def total (w : Task → Cputime × Cputime) (ts : List Task) : Cputime × Cputime := (ts.map w).sum

/-- The time of a task if it belongs to the uid. -/
def ofUid (uid : Uid) (t : Task) : Cputime × Cputime := if t.uid = uid then t.times else 0

/-- The time of a task of the uid that has passed its exit notifier. -/
def ofExited (uid : Uid) (t : Task) : Cputime × Cputime :=
  if t.phase = .running then 0 else ofUid uid t

theorem total_append (w : Task → Cputime × Cputime) (xs ys : List Task) :
    total w (xs ++ ys) = total w xs + total w ys := by
  rw [total, List.map_append, List.sum_append, total, total]

theorem total_set (w : Task → Cputime × Cputime) {ts : List Task} {i : Nat} {t : Task}
    (ht : ts[i]? = some t) (t' : Task) : total w (ts.set i t') + w t = total w ts + w t' := by
  induction ts generalizing i with
  | nil => cases ht
  | cons x xs ih =>
      cases i with
      | zero =>
          cases ht
          simp only [total, List.set_cons_zero, List.map_cons, List.sum_cons]
          abel
      | succ i =>
          have htail := ih (i := i) ht
          simp only [total, List.set_cons_succ, List.map_cons, List.sum_cons] at htail ⊢
          rw [add_assoc, htail, add_assoc]

/-! ### Table operations -/

section Table

variable {T : UidTable}

theorem registered_updateAt (f : UidEntry → UidEntry) (uid uid' : Uid) :
    (T.updateAt uid f).Registered uid' ↔ T.Registered uid' := by
  rw [UidTable.Registered, UidTable.findUidEntry_updateAt, UidTable.Registered]
  split
  · rw [Option.isSome_map]
  · rfl

theorem processNotifier_spec {alloc : Bool} {uid : Uid} (utime stime : Cputime)
    (hreg : T.Registered uid ∨ alloc = true) :
    (∀ uid', (processNotifier T alloc uid utime stime).charged uid' =
      T.charged uid' + if uid' = uid then (utime, stime) else 0) ∧
    (processNotifier T alloc uid utime stime).Registered uid ∧
    ∀ uid', T.Registered uid' → (processNotifier T alloc uid utime stime).Registered uid' := by
  obtain ⟨T', hT'⟩ := UidTable.findOrRegisterUid_isSome hreg
  obtain ⟨hself, hkeep, -, hcharged, -⟩ := UidTable.findOrRegisterUid_eq_some hT'
  rw [processNotifier, hT']
  refine ⟨fun uid' => ?_, (registered_updateAt _ _ _).2 hself,
    fun uid' h => (registered_updateAt _ _ _).2 (hkeep uid' h)⟩
  rw [← hcharged, UidTable.charged, UidTable.findUidEntry_updateAt, UidTable.charged]
  split
  · rename_i heq
    rw [heq]
    obtain ⟨e, he⟩ := Option.isSome_iff_exists.1 hself
    rw [he]
    rfl
  · rw [add_zero]

theorem charged_clearActive : (clearActive T).charged = T.charged := by
  funext uid
  rw [UidTable.charged, clearActive, UidTable.findUidEntry_update, UidTable.charged]
  cases T.findUidEntry uid <;> rfl

theorem active_clearActive (uid : Uid) : (clearActive T).active uid = 0 := by
  rw [UidTable.active, clearActive, UidTable.findUidEntry_update]
  cases T.findUidEntry uid <;> rfl

theorem registered_clearActive (uid : Uid) :
    (clearActive T).Registered uid ↔ T.Registered uid := by
  rw [UidTable.Registered, clearActive, UidTable.findUidEntry_update, Option.isSome_map,
    UidTable.Registered]

/-- A step of the walk adds the thread's time to the active part of its uid. -/
theorem active_updateAt {uid : Uid} (hself : T.Registered uid) (utime stime : Cputime)
    (uid' : Uid) :
    (T.updateAt uid fun e => { e with activeUtime := e.activeUtime + utime,
                                      activeStime := e.activeStime + stime }).active uid' =
      T.active uid' + if uid = uid' then (utime, stime) else 0 := by
  rw [UidTable.active, UidTable.findUidEntry_updateAt, UidTable.active]
  by_cases heq : uid' = uid
  · rw [if_pos heq, if_pos heq.symm, heq]
    obtain ⟨e, he⟩ := Option.isSome_iff_exists.1 hself
    rw [he]
    rfl
  · rw [if_neg heq, if_neg (Ne.symm heq), add_zero]

theorem charged_updateAt_active (uid : Uid) (utime stime : Cputime) :
    (T.updateAt uid fun e => { e with activeUtime := e.activeUtime + utime,
                                      activeStime := e.activeStime + stime }).charged =
      T.charged := by
  funext uid'
  rw [UidTable.charged, UidTable.findUidEntry_updateAt, UidTable.charged]
  split
  · cases T.findUidEntry uid' <;> rfl
  · rfl

/-- The walk changes no charged time, registers every thread's uid, and adds the times of all
threads to the active parts. It keeps the charged times and registrations even when it fails. -/
theorem walkThreads_spec (alloc : Uid → Bool) (T : UidTable) (ts : List Task) :
    match walkThreads alloc T ts with
    | .error T' => T'.charged = T.charged ∧ ∀ uid, T.Registered uid → T'.Registered uid
    | .ok T' => T'.charged = T.charged ∧ (∀ uid, T.Registered uid → T'.Registered uid) ∧
        (∀ t ∈ ts, T'.Registered t.uid) ∧
        ∀ uid, T'.active uid = T.active uid + total (ofUid uid) ts := by
  induction ts generalizing T with
  | nil =>
      refine ⟨rfl, fun _ h => h, fun _ ht => absurd ht List.not_mem_nil, fun uid => ?_⟩
      exact (add_zero _).symm
  | cons t ts ih =>
      rw [walkThreads]
      cases hreg : T.findOrRegisterUid (alloc t.uid) t.uid with
      | none => exact ⟨rfl, fun _ h => h⟩
      | some T' =>
          obtain ⟨hself, hkeep, -, hcharged, hactive⟩ := UidTable.findOrRegisterUid_eq_some hreg
          have hrest := ih (T'.updateAt t.uid fun e =>
            { e with activeUtime := e.activeUtime + t.utime,
                     activeStime := e.activeStime + t.stime })
          rw [charged_updateAt_active] at hrest
          simp only [registered_updateAt, active_updateAt hself, hcharged, hactive] at hrest
          dsimp only
          split at hrest
          · exact ⟨hrest.1, fun uid h => hrest.2 uid (hkeep uid h)⟩
          · obtain ⟨hch, hreg', hmem, hact⟩ := hrest
            refine ⟨hch, fun uid h => hreg' uid (hkeep uid h), ?_, fun uid => ?_⟩
            · exact List.forall_mem_cons.2 ⟨hreg' _ hself, hmem⟩
            · rw [hact, add_assoc, total, total, List.map_cons, List.sum_cons]
              rfl

end Table

/-! ### The balance -/

/-- A uid's entry holds the time of its tasks behind their exit notifier, and the consumed time is
the time of all its tasks, both as 32-bit sums. -/
structure Balanced (s : Traced) : Prop where
  charged : ∀ uid, s.table.charged uid = total (ofExited uid) s.tasks
  consumed : ∀ uid, (BitVec.ofNat 32 (s.consumed uid).1, BitVec.ofNat 32 (s.consumed uid).2) =
    total (ofUid uid) s.tasks
  registered : ∀ t ∈ s.tasks, t.phase ≠ .running → s.table.Registered t.uid

theorem balanced_start : Balanced .start :=
  ⟨fun _ => rfl, fun _ => rfl, fun _ ht => absurd ht List.not_mem_nil⟩

theorem total_set_of_add {w : Task → Cputime × Cputime} {ts : List Task} {i : Nat} {t t' : Task}
    (ht : ts[i]? = some t) {d : Cputime × Cputime} (hw : w t' = w t + d) :
    total w (ts.set i t') = total w ts + d := by
  have hset := total_set w ht t'
  rw [hw, add_comm (w t) d, ← add_assoc] at hset
  exact add_right_cancel hset

theorem total_set_of_eq {w : Task → Cputime × Cputime} {ts : List Task} {i : Nat} {t t' : Task}
    (ht : ts[i]? = some t) (hw : w t' = w t) : total w (ts.set i t') = total w ts := by
  have hadd := total_set_of_add ht (hw.trans (add_zero _).symm)
  rwa [add_zero] at hadd

section Step

variable {jiffiesToMsecs} {limit : Nat} {s : Traced}

theorem balanced_create (hs : Balanced s) (uid : Uid) :
    Balanced (step jiffiesToMsecs s (.create uid)) := by
  have hzero (uid' : Uid) : total (ofUid uid') [⟨uid, 0, 0, .running⟩] = 0 := by
    rw [total, List.map_singleton, List.sum_singleton, ofUid]
    split <;> rfl
  refine ⟨fun _ => ?_, fun uid' => ?_, fun t ht hphase => ?_⟩
  · rw [step, total_append, ← hs.charged]
    exact (add_zero _).symm
  · rw [step, total_append, ← hs.consumed, hzero, add_zero]
  · rcases List.mem_append.1 ht with hold | hnew
    · exact hs.registered t hold hphase
    · rw [List.mem_singleton.1 hnew] at hphase
      exact absurd rfl hphase

theorem balanced_tick (hs : Balanced s) {i : Nat} {utime stime : Cputime}
    (hok : Counted limit s (.tick i utime stime)) :
    Balanced (step jiffiesToMsecs s (.tick i utime stime)) := by
  rw [step]
  cases ht : s.tasks[i]? with
  | none => exact hs
  | some t =>
      have hphase : t.phase = .running := hok t ht
      refine ⟨fun uid => ?_, fun uid => ?_, fun t' ht' hphase' => ?_⟩
      · rw [hs.charged]
        refine (total_set_of_eq ht ?_).symm
        rw [ofExited, ofExited, if_pos hphase, if_pos hphase]
      · have hadd : total (ofUid uid) (s.tasks.set i
            { t with utime := t.utime + utime, stime := t.stime + stime }) =
            total (ofUid uid) s.tasks + if t.uid = uid then (utime, stime) else 0 := by
          apply total_set_of_add ht
          rw [ofUid, ofUid]
          dsimp only
          split
          · rfl
          · rw [add_zero]
        dsimp only
        rw [hadd, ← hs.consumed]
        split
        · simp only [Prod.fst_add, Prod.snd_add, BitVec.ofNat_add, BitVec.ofNat_toNat,
            BitVec.setWidth_eq, Prod.mk_add_mk]
        · rw [add_zero]
      · rcases List.mem_or_eq_of_mem_set ht' with hold | rfl
        · exact hs.registered t' hold hphase'
        · exact absurd hphase hphase'

theorem balanced_exit (hs : Balanced s) {i : Nat} {alloc : Bool} {utime stime : Cputime}
    (hok : Counted limit s (.exit i alloc utime stime)) :
    Balanced (step jiffiesToMsecs s (.exit i alloc utime stime)) := by
  rw [step]
  cases ht : s.tasks[i]? with
  | none => exact hs
  | some t =>
      dsimp only
      split
      · rename_i hphase
        obtain ⟨hreg, htimes⟩ := hok t ht hphase
        obtain ⟨hcharged, hself, hkeep⟩ := processNotifier_spec utime stime hreg
        refine ⟨fun uid => ?_, fun uid => ?_, fun t' ht' hphase' => ?_⟩
        · dsimp only
          rw [hcharged, hs.charged]
          refine (total_set_of_add ht ?_).symm
          change ofUid uid t = ofExited uid t + _
          rw [ofExited, if_pos hphase, zero_add, ofUid, htimes]
          by_cases heq : t.uid = uid
          · rw [if_pos heq, if_pos heq.symm]
          · rw [if_neg heq, if_neg (Ne.symm heq)]
        · rw [hs.consumed]
          have hset : total (ofUid uid) (s.tasks.set i { t with phase := .exiting }) =
              total (ofUid uid) s.tasks := total_set_of_eq ht rfl
          exact hset.symm
        · rcases List.mem_or_eq_of_mem_set ht' with hold | rfl
          · exact hkeep _ (hs.registered t' hold hphase')
          · exact hself
      · exact hs

theorem balanced_reap (hs : Balanced s) (i : Nat) :
    Balanced (step jiffiesToMsecs s (.reap i)) := by
  rw [step]
  cases ht : s.tasks[i]? with
  | none => exact hs
  | some t =>
      dsimp only
      split
      · rename_i hphase
        refine ⟨fun uid => ?_, fun uid => ?_, fun t' ht' hphase' => ?_⟩
        · rw [hs.charged]
          refine (total_set_of_eq ht ?_).symm
          change ofUid uid t = ofExited uid t
          rw [ofExited, if_neg (by rw [hphase]; decide)]
        · rw [hs.consumed]
          have hset : total (ofUid uid) (s.tasks.set i { t with phase := .reaped }) =
              total (ofUid uid) s.tasks := total_set_of_eq ht rfl
          exact hset.symm
        · rcases List.mem_or_eq_of_mem_set ht' with hold | rfl
          · exact hs.registered t' hold hphase'
          · exact hs.registered t (List.mem_of_getElem? ht) (by rw [hphase]; decide)
      · exact hs

theorem balanced_read (hs : Balanced s) (alloc : Uid → Bool) :
    Balanced (step jiffiesToMsecs s (.read alloc)) := by
  have hwalk := walkThreads_spec alloc (clearActive s.table) s.threads
  have htable : (uidStatShow jiffiesToMsecs alloc s.toKernel).1.charged = s.table.charged ∧
      ∀ uid, s.table.Registered uid →
        (uidStatShow jiffiesToMsecs alloc s.toKernel).1.Registered uid := by
    rw [uidStatShow]
    rw [charged_clearActive] at hwalk
    simp only [registered_clearActive] at hwalk
    split at hwalk
    · exact hwalk
    · exact ⟨hwalk.1, hwalk.2.1⟩
  refine ⟨fun uid => ?_, hs.consumed, fun t ht hphase => ?_⟩
  · rw [step, htable.1]
    exact hs.charged uid
  · exact htable.2 _ (hs.registered t ht hphase)

variable (jiffiesToMsecs) in
theorem balanced_step (hs : Balanced s) (e : Event) (hok : Counted limit s e) :
    Balanced (step jiffiesToMsecs s e) := by
  cases e with
  | create uid => exact balanced_create hs uid
  | tick i utime stime => exact balanced_tick hs hok
  | exit i alloc utime stime => exact balanced_exit hs hok
  | reap i => exact balanced_reap hs i
  | read alloc => exact balanced_read hs alloc

/-- Exited tasks and threads on the list are all tasks, with the exiting ones counted twice. -/
theorem total_exited_add_threads {ts : List Task}
    (hexiting : ∀ t ∈ ts, t.phase = .exiting → t.times = 0) (uid : Uid) :
    total (ofExited uid) ts + total (ofUid uid) (ts.filter fun t => t.phase ≠ .reaped) =
      total (ofUid uid) ts := by
  induction ts with
  | nil => exact add_zero 0
  | cons t ts ih =>
      have htail := ih fun t' ht' => hexiting t' (List.mem_cons_of_mem _ ht')
      have hhead (w : Task → Cputime × Cputime) (xs : List Task) :
          total w (t :: xs) = w t + total w xs := by
        rw [total, List.map_cons, List.sum_cons, total]
      rw [hhead, hhead, ← htail]
      cases hphase : t.phase with
      | running =>
          rw [List.filter_cons_of_pos (by simp [hphase]), hhead, ofExited, if_pos hphase]
          abel
      | exiting =>
          have hzero : ofUid uid t = 0 := by
            rw [ofUid, hexiting t (List.mem_cons_self ..) hphase, ite_self]
          rw [List.filter_cons_of_pos (by simp [hphase]), hhead, ofExited,
            if_neg (by rw [hphase]; decide), hzero]
          abel
      | reaped =>
          rw [List.filter_cons_of_neg (by simp [hphase]), ofExited,
            if_neg (by rw [hphase]; decide), add_assoc]

variable (jiffiesToMsecs) in
/-- In a balanced state a read without exiting time reports exactly the consumed time. -/
theorem readExact_of_balanced (hlimit : limit ≤ 2 ^ 32) (hs : Balanced s) (e : Event)
    (hok : Counted limit s e) : ReadExact jiffiesToMsecs s e := by
  cases e with
  | create | tick | exit | reap => trivial
  | read alloc =>
      intro lines hlines
      obtain ⟨hexiting, hbound⟩ := hok
      have hwalk := walkThreads_spec alloc (clearActive s.table) s.threads
      rw [uidStatShow] at hlines
      split at hlines
      · cases hlines
      · rename_i T hT
        rw [hT] at hwalk
        obtain ⟨hcharged, hkeep, hmem, hactive⟩ := hwalk
        rw [charged_clearActive] at hcharged
        cases hlines
        have huids : (T.entries.map (statLine jiffiesToMsecs)).map StatLine.uid =
            T.entries.map UidEntry.uid := by
          rw [List.map_map]
          rfl
        refine ⟨?_, fun t ht => ?_, fun line hline => ?_⟩
        · rw [huids]
          exact T.distinct
        · rw [huids, ← UidTable.registered_iff_mem]
          by_cases hphase : t.phase = .reaped
          · refine hkeep _ ((registered_clearActive _).2 (hs.registered t ht ?_))
            rw [hphase]
            decide
          · exact hmem t (List.mem_filter.2 ⟨ht, by simpa using hphase⟩)
        · obtain ⟨e, he, rfl⟩ := List.mem_map.1 hline
          have hfind := UidTable.findUidEntry_of_mem he
          have hentry : (e.utime, e.stime) + (e.activeUtime, e.activeStime) =
              (BitVec.ofNat 32 (s.consumed e.uid).1, BitVec.ofNat 32 (s.consumed e.uid).2) := by
            have hch : T.charged e.uid = (e.utime, e.stime) := by
              rw [UidTable.charged, hfind]
              rfl
            have hac : T.active e.uid = (e.activeUtime, e.activeStime) := by
              rw [UidTable.active, hfind]
              rfl
            rw [← hch, ← hac, hcharged, hactive, active_clearActive, zero_add, hs.charged,
              hs.consumed]
            exact total_exited_add_threads hexiting e.uid
          rw [Prod.mk_add_mk, Prod.mk.injEq] at hentry
          have hu := (hbound e.uid).1
          have hst := (hbound e.uid).2
          constructor
          · change jiffiesToMsecs (e.utime + e.activeUtime).toNat * 1000 =
              jiffiesToMsecs (s.consumed e.uid).1 * 1000
            rw [hentry.1, BitVec.toNat_ofNat, Nat.mod_eq_of_lt (by omega)]
          · change jiffiesToMsecs (e.stime + e.activeStime).toNat * 1000 =
              jiffiesToMsecs (s.consumed e.uid).2 * 1000
            rw [hentry.2, BitVec.toNat_ofNat, Nat.mod_eq_of_lt (by omega)]

end Step

/-! ### Reports of a run -/

theorem consumed_le_step (s : Traced) (e : Event) (uid : Uid) :
    s.consumed uid ≤ (step jiffiesToMsecs s e).consumed uid := by
  cases e with
  | create | read => exact le_rfl
  | tick i utime stime =>
      rw [step]
      split
      · exact le_rfl
      · dsimp only
        split
        · exact ⟨Nat.le_add_right _ _, Nat.le_add_right _ _⟩
        · exact le_rfl
  | exit | reap =>
      rw [step]
      split
      · exact le_rfl
      · split <;> exact le_rfl

section Reports

variable {jiffiesToMsecs} {limit : Nat}

/-- Every line of every report of a run stands for a time its uid has consumed by then, at least
what it had consumed when the run began. -/
theorem reports_lines (hlimit : limit ≤ 2 ^ 32) {es : List Event} {s : Traced} (hs : Balanced s)
    (hes : Run.EachStep (step jiffiesToMsecs) (Counted limit) s es) :
    ∀ lines ∈ reports jiffiesToMsecs s es, ∀ line ∈ lines,
      ∃ c : Nat × Nat, s.consumed line.uid ≤ c ∧ c.1 < limit ∧ c.2 < limit ∧
        line.utime = jiffiesToMsecs c.1 * 1000 ∧ line.stime = jiffiesToMsecs c.2 * 1000 := by
  induction es generalizing s with
  | nil => exact fun lines hlines => absurd hlines List.not_mem_nil
  | cons e es ih =>
      obtain ⟨hok, hes⟩ := hes
      intro lines hlines line hline
      have hrest : lines ∈ reports jiffiesToMsecs (step jiffiesToMsecs s e) es →
          ∃ c : Nat × Nat, s.consumed line.uid ≤ c ∧ c.1 < limit ∧ c.2 < limit ∧
            line.utime = jiffiesToMsecs c.1 * 1000 ∧ line.stime = jiffiesToMsecs c.2 * 1000 := by
        intro hmem
        obtain ⟨c, hle, hc⟩ := ih (balanced_step _ hs e hok) hes lines hmem line hline
        exact ⟨c, (consumed_le_step jiffiesToMsecs s e line.uid).trans hle, hc⟩
      have hexact := readExact_of_balanced jiffiesToMsecs hlimit hs e hok
      cases e with
      | create | tick | exit | reap => exact hrest hlines
      | read alloc =>
          rw [reports] at hlines
          split at hlines
          · rename_i first hfirst
            rcases List.mem_cons.1 hlines with rfl | hmem
            · obtain ⟨-, -, hvalues⟩ := hexact _ hfirst
              exact ⟨_, le_rfl, (hok.2 line.uid).1, (hok.2 line.uid).2, hvalues line hline⟩
            · exact hrest hmem
          · exact hrest hlines

theorem reports_notDecreasing (hlimit : limit ≤ 2 ^ 32)
    (hmono : ∀ a b, a ≤ b → b < limit → jiffiesToMsecs a ≤ jiffiesToMsecs b) {es : List Event}
    {s : Traced} (hs : Balanced s)
    (hes : Run.EachStep (step jiffiesToMsecs) (Counted limit) s es) :
    (reports jiffiesToMsecs s es).Pairwise NotDecreasing := by
  induction es generalizing s with
  | nil => exact .nil
  | cons e es ih =>
      obtain ⟨hok, hes⟩ := hes
      have hnext := balanced_step jiffiesToMsecs hs e hok
      have hexact := readExact_of_balanced jiffiesToMsecs hlimit hs e hok
      cases e with
      | create | tick | exit | reap => exact ih hnext hes
      | read alloc =>
          rw [reports]
          split
          · rename_i lines hlines
            refine List.pairwise_cons.2 ⟨fun lines' hmem line hline line' hline' heq => ?_,
              ih hnext hes⟩
            obtain ⟨hu, hst⟩ := (hexact _ hlines).2.2 line hline
            obtain ⟨c, hle, hcu, hcs, hu', hst'⟩ :=
              reports_lines hlimit hnext hes lines' hmem line' hline'
            have hbefore := (consumed_le_step jiffiesToMsecs s (.read alloc) line'.uid).trans hle
            rw [hu, hst, hu', hst', heq]
            exact ⟨Nat.mul_le_mul_right _ (hmono _ _ hbefore.1 hcu),
              Nat.mul_le_mul_right _ (hmono _ _ hbefore.2 hcs)⟩
          · exact ih hnext hes

end Reports

/-- In every run whose steps lose and double no time, every read that succeeds reports for each uid
exactly the time its tasks have consumed, and no uid's time decreases between two reads. -/
theorem reads_exact {limit : Nat} (hlimit : limit ≤ 2 ^ 32)
    (hmono : ∀ a b, a ≤ b → b < limit → jiffiesToMsecs a ≤ jiffiesToMsecs b) {es : List Event}
    (hes : Run.EachStep (step jiffiesToMsecs) (Counted limit) .start es) :
    Run.EachStep (step jiffiesToMsecs) (ReadExact jiffiesToMsecs) .start es ∧
      (reports jiffiesToMsecs .start es).Pairwise NotDecreasing := by
  have hbalanced : Run.Always (step jiffiesToMsecs) Balanced .start es :=
    Run.always_of_eachStep (fun s e hs hok => balanced_step _ hs e hok) balanced_start hes
  refine ⟨Run.eachStep_of_always_of_eachStep (fun s e hs hok => ?_) hbalanced hes,
    reports_notDecreasing hlimit hmono balanced_start hes⟩
  exact readExact_of_balanced _ hlimit hs e hok

/-- `jiffies_to_msecs` for 300 ticks a second. -/
def msecs300 (j : Nat) : Nat := 0xD5555556 * j / 2 ^ 30 % 2 ^ 32

theorem msecs300_mono (a b : Nat) (hab : a ≤ b) (hb : b < 1288490188) :
    msecs300 a ≤ msecs300 b := by
  have hlt (x : Nat) (hx : x < 1288490188) : 0xD5555556 * x / 2 ^ 30 < 2 ^ 32 := by omega
  rw [msecs300, msecs300, Nat.mod_eq_of_lt (hlt a (by omega)), Nat.mod_eq_of_lt (hlt b hb)]
  exact Nat.div_le_div_right (Nat.mul_le_mul_left _ hab)

/-- A task that is charged, read, exits and is reaped before the next read. -/
def reapedRun : List Event :=
  [.create 10010, .tick 0 300 7, .read fun _ => true, .exit 0 true 300 7, .reap 0,
    .read fun _ => true]

theorem reads_exact_reapedRun :
    Run.EachStep (step msecs300) (ReadExact msecs300) .start reapedRun ∧
      (reports msecs300 .start reapedRun).Pairwise NotDecreasing := by
  have hbound (uid : Uid) :
      ((if (10010 : Uid) = uid then (0, 0) + (300, 7) else (0, 0) : Nat × Nat)).1
      < 1288490188 ∧ (if (10010 : Uid) = uid then (0, 0) + (300, 7) else (0, 0) : Nat × Nat).2
      < 1288490188 := by
    split <;> decide
  refine reads_exact msecs300 (by decide) msecs300_mono ⟨trivial, ?_, ⟨?_, hbound⟩, ?_, trivial,
    ⟨?_, hbound⟩, trivial⟩
  · intro t ht
    cases (show some (⟨10010, 0, 0, .running⟩ : Task) = some t from ht)
    rfl
  · show ∀ t ∈ [(⟨10010, 300, 7, .running⟩ : Task)], t.phase = .exiting → t.times = 0
    decide
  · intro t ht _
    cases (show some (⟨10010, 300, 7, .running⟩ : Task) = some t from ht)
    exact ⟨Or.inr rfl, rfl⟩
  · show ∀ t ∈ [(⟨10010, 300, 7, .reaped⟩ : Task)], t.phase = .exiting → t.times = 0
    decide

/-- A read between the exit notifier and the reaping counts the task twice, and the next read takes
it back. -/
def exitingRun : List Event :=
  [.create 10010, .tick 0 5 0, .exit 0 true 5 0, .read fun _ => true, .reap 0, .read fun _ => true]

theorem exiting_task_reported_twice :
    reports msecs300 .start exitingRun = [[⟨10010, 33000, 0⟩], [⟨10010, 16000, 0⟩]] ∧
      ¬ Run.EachStep (step msecs300) (ReadExact msecs300) .start exitingRun ∧
      ¬ (reports msecs300 .start exitingRun).Pairwise NotDecreasing := by
  have hreports : reports msecs300 .start exitingRun =
      [[⟨10010, 33000, 0⟩], [⟨10010, 16000, 0⟩]] := by decide
  refine ⟨hreports, ?_, ?_⟩
  · intro hexact
    obtain ⟨-, -, -, hread, -⟩ := hexact
    obtain ⟨-, -, hlines⟩ := hread [⟨10010, 33000, 0⟩] (by decide)
    have hline := (hlines ⟨10010, 33000, 0⟩ (List.mem_singleton_self _)).1
    revert hline
    decide
  · rw [hreports]
    intro hpairwise
    have hdecreasing := List.rel_of_pairwise_cons hpairwise (List.mem_singleton_self _)
    have hle := hdecreasing ⟨10010, 33000, 0⟩ (List.mem_singleton_self _) ⟨10010, 16000, 0⟩
      (List.mem_singleton_self _) rfl
    exact absurd hle.1 (by decide)

end LineageA1000.UidCputime
