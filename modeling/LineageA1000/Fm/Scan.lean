import LineageA1000.Lib.Run
import Mathlib.Data.BitVec

/-!
# Stopping an FM scan

`FMR_scan` repeats the driver's search and looks at the flag `scan_stop` between two searches;
`FMR_stop_scan` sets the flag from another thread and interrupts the search in flight. The scan
clears the flag when it starts and looks at it before it enters the next search, so a stop in one of
these two places comes too early or too late. What the driver answers is up to the
run. -/

namespace LineageA1000.Fm

abbrev SC_SEEK_DIR_UP : Int := 0
abbrev SC_SEEK_DIR_DOWN : Int := 1
abbrev SC_SEEK_TIMEOUT : Int := 1
abbrev SC_BAND_LOW : Int := 875
abbrev SC_BAND_HIGH : Int := 1080
abbrev SC_BAND_STEP : Int := 1

/-- The error numbers of `fmr.h` that are returned with a minus sign; they are positive. -/
structure FmrConst where
  errInvalidFd : Int
  errInvalidFd_pos : 0 < errInvalidFd

def scClampFreq (f10 : Int) : Int :=
  if f10 < SC_BAND_LOW then SC_BAND_LOW
  else if f10 > SC_BAND_HIGH then SC_BAND_HIGH
  else f10

/-- The argument of the search ioctl. -/
structure SearchArg where
  freq : Int
  dir : Int
  timeout : Int
  deriving DecidableEq

/-- What `FMR_seek` asks the driver for; it takes its frequency in units of 0.01 MHz. -/
def seekArg (startFreq : Int) (dir : Bool) : SearchArg :=
  ⟨scClampFreq (startFreq.tdiv 10), if dir then SC_SEEK_DIR_UP else SC_SEEK_DIR_DOWN,
    SC_SEEK_TIMEOUT⟩

/-- The result of `FMR_seek` and the frequency it writes back, from what the driver answers: nothing
when the ioctl fails. -/
def seekResult (startFreq : Int) : Option Int → Int × Int
  | none => (-1, startFreq)
  | some freq =>
      if freq < SC_BAND_LOW ∨ freq > SC_BAND_HIGH then (-1, startFreq) else (0, freq * 10)

/-- The variables of `FMR_scan`; `tbl` is as long as `cnt` says. -/
structure Locals where
  max : Int
  cnt : Int
  cur : Int
  prev : Int
  tbl : List (BitVec 16)
  deriving DecidableEq

/-- Where a scan stands: before the step that the constructor names. -/
inductive ScanPc where
  | idle
  | entered (num : Int)
  | reset (l : Locals)
  | head (l : Locals)
  | search (l : Locals)
  | inFlight (l : Locals)
  | finish (l : Locals)
  | returned (ret num : Int)
  deriving DecidableEq

/-- Where a call of `FMR_stop_scan` stands. -/
inductive StopPc where
  | entered
  | stored
  | returned (ret : Int)
  deriving DecidableEq

structure State where
  fd : Int
  curFreq : BitVec 16
  scanStop : Bool
  maxScanNum : Int
  scan : ScanPc
  stops : List StopPc
  /-- The search ioctls issued so far. -/
  searches : List SearchArg
  /-- Some `FMR_stop_scan` has returned since the scan was entered. -/
  stopped : Bool
  deriving DecidableEq

namespace ScanPc

def running : ScanPc → Bool
  | .idle | .returned .. => false
  | _ => true

/-- The scan is about to clear the flag. -/
def atReset : ScanPc → Bool
  | .reset _ => true
  | _ => false

/-- The scan has looked at the flag and is about to enter the search. -/
def atSearch : ScanPc → Bool
  | .search _ => true
  | _ => false

/-- The scan has returned a station list. -/
def succeeded : ScanPc → Bool
  | .returned ret _ => ret = 0
  | _ => false

end ScanPc

/-! ### The steps -/

/-- What the scan makes of a search that has found a frequency. -/
def found (l : Locals) (freq : Int) : ScanPc :=
  if l.prev ≥ 0 ∧ freq ≤ l.prev then .finish l
  else if freq ≤ SC_BAND_LOW ∧ l.cnt > 0 then .finish l
  else
    let l := { l with
      tbl := l.tbl ++ [BitVec.ofInt 16 freq]
      cnt := l.cnt + 1
      prev := freq
      cur := freq + SC_BAND_STEP }
    if l.cur > SC_BAND_HIGH then .finish l else .head l

/-- The next step of the scan; the end of a search is `searched`. -/
def scanStep (K : FmrConst) (s : State) : State :=
  match s.scan with
  | .entered num =>
      if s.fd < 0 then { s with scan := .returned (-K.errInvalidFd) num }
      else
        let max := if num > s.maxScanNum then s.maxScanNum else num
        { s with scan := .reset ⟨max, 0, SC_BAND_LOW, -1, []⟩ }
  | .reset l => { s with scanStop := false, scan := .head l }
  | .head l =>
      if ¬ l.cnt < l.max then { s with scan := .finish l }
      else if s.scanStop then { s with scan := .finish l }
      else { s with scan := .search l }
  | .search l =>
      if s.fd < 0 then { s with scan := .finish l }
      else
        { s with scan := .inFlight l, searches := s.searches ++ [seekArg (l.cur * 10) true] }
  | .finish l => { s with scan := .returned (if s.scanStop then -1 else 0) l.cnt }
  | .idle | .inFlight _ | .returned .. => s

/-- The search in flight ends with the driver's answer. -/
def searched (answer : Option Int) (s : State) : State :=
  match s.scan with
  | .inFlight l =>
      let r := seekResult (l.cur * 10) answer
      if r.1 ≠ 0 then { s with scan := .finish l }
      else
        { s with
          curFreq := BitVec.ofInt 16 (r.2.tdiv 10)
          scan := found l (r.2.tdiv 10) }
  | _ => s

/-- The next step of a call of `FMR_stop_scan`: it sets the flag, then it interrupts the search. -/
def stopStep (K : FmrConst) (i : Nat) (ok : Bool) (s : State) : State :=
  match s.stops[i]? with
  | some .entered => { s with scanStop := true, stops := s.stops.set i .stored }
  | some .stored =>
      let ret := if s.fd < 0 then -K.errInvalidFd else if ok then 0 else -1
      { s with
        stops := s.stops.set i (.returned ret)
        stopped := s.stopped || s.scan.running }
  | _ => s

inductive Event where
  | scan (num : Int)
  | scanStep
  | searched (answer : Option Int)
  | stop
  | stopStep (i : Nat) (ok : Bool)
  deriving DecidableEq

def step (K : FmrConst) (s : State) : Event → State
  | .scan num => if s.scan.running then s else { s with scan := .entered num, stopped := false }
  | .scanStep => scanStep K s
  | .searched answer => searched answer s
  | .stop => { s with stops := s.stops ++ [.entered] }
  | .stopStep i ok => stopStep K i ok s

/-- The device after `FMR_init` and whatever `FMR_open_dev` made of it. -/
def opened (fd : Int) : State := ⟨fd, 875, false, 200, .idle, [], [], false⟩

/-! ### Stops that take effect -/

variable (K : FmrConst)

/-- Once a stop has returned, the step issues no search and the scan returns no station list. -/
def StopTakesEffect (s : State) (e : Event) : Prop :=
  s.stopped = true →
    (step K s e).searches = s.searches ∧ (step K s e).scan.succeeded = false

instance (s : State) (e : Event) : Decidable (StopTakesEffect K s e) :=
  inferInstanceAs (Decidable (_ → _))

/-- The scan is neither about to clear the flag while a stop has returned or has set it already, nor
about to enter a search while a stop returns. -/
def StopsInTime (s : State) : Event → Prop
  | .scanStep => s.scan.atReset = true → s.stopped = false ∧ .stored ∉ s.stops
  | .stopStep i _ => s.stops[i]? = some .stored → s.scan.atSearch = false
  | .scan _ | .searched _ | .stop => True

instance (s : State) (e : Event) : Decidable (StopsInTime s e) := by
  cases e with
  | scanStep => exact inferInstanceAs (Decidable (_ → _))
  | stopStep i ok => exact inferInstanceAs (Decidable (_ → _))
  | scan num | searched answer | stop => exact instDecidableTrue

/-- What holds where the scan stands: behind the reset the flag shows every stop that has set it,
and no stop has returned where a search is entered. -/
def AtPc (s : State) : ScanPc → Prop
  | .idle | .entered _ | .reset _ => True
  | .head _ | .inFlight _ | .finish _ =>
      (s.stopped = true → s.scanStop = true) ∧ (.stored ∈ s.stops → s.scanStop = true)
  | .search _ => s.stopped = false ∧ (.stored ∈ s.stops → s.scanStop = true)
  | .returned ret _ => s.stopped = true → ret ≠ 0

def Sound (s : State) : Prop := AtPc s s.scan

variable {K}

theorem sound_scanStep {s : State} (hs : Sound s) (hin : StopsInTime s .scanStep) :
    Sound (scanStep K s) ∧ (s.stopped = true → (scanStep K s).searches = s.searches) := by
  have herr : -K.errInvalidFd ≠ 0 := by
    have hpos := K.errInvalidFd_pos
    omega
  unfold Sound at hs
  unfold scanStep
  cases hpc : s.scan with
  | idle | inFlight l | returned ret num =>
      refine ⟨?_, fun _ => rfl⟩
      rw [Sound, hpc]
      rw [hpc] at hs
      exact hs
  | entered num =>
      dsimp only
      split
      · exact ⟨fun _ => herr, fun _ => rfl⟩
      · exact ⟨trivial, fun _ => rfl⟩
  | reset l =>
      obtain ⟨hstopped, hstored⟩ := hin (by rw [hpc]; rfl)
      refine ⟨⟨fun h => ?_, fun h => absurd h hstored⟩, fun _ => rfl⟩
      rw [hstopped] at h
      cases h
  | head l =>
      rw [hpc] at hs
      dsimp only
      split
      · exact ⟨hs, fun _ => rfl⟩
      split
      · exact ⟨hs, fun _ => rfl⟩
      · rename_i hclear
        refine ⟨⟨?_, hs.2⟩, fun _ => rfl⟩
        exact Bool.eq_false_iff.2 fun hstopped => hclear (hs.1 hstopped)
  | search l =>
      rw [hpc] at hs
      obtain ⟨hstopped, hstored⟩ := hs
      have hnot {P : Prop} : s.stopped = true → P := by
        intro h
        rw [hstopped] at h
        cases h
      dsimp only
      split
      · exact ⟨⟨hnot, hstored⟩, fun _ => rfl⟩
      · exact ⟨⟨hnot, hstored⟩, hnot⟩
  | finish l =>
      rw [hpc] at hs
      refine ⟨fun hstopped => ?_, fun _ => rfl⟩
      rw [if_pos (hs.1 hstopped)]
      decide

theorem found_cases (l : Locals) (freq : Int) :
    ∃ l', found l freq = .head l' ∨ found l freq = .finish l' := by
  unfold found
  split
  · exact ⟨l, .inr rfl⟩
  split
  · exact ⟨l, .inr rfl⟩
  dsimp only
  split
  · exact ⟨_, .inr rfl⟩
  · exact ⟨_, .inl rfl⟩

theorem sound_searched {s : State} (hs : Sound s) (answer : Option Int) :
    Sound (searched answer s) ∧ (searched answer s).searches = s.searches := by
  unfold Sound at hs
  unfold searched
  cases hpc : s.scan with
  | inFlight l =>
      rw [hpc] at hs
      dsimp only
      split
      · exact ⟨hs, rfl⟩
      · refine ⟨?_, rfl⟩
        obtain ⟨l', hnext | hnext⟩ :=
          found_cases l ((seekResult (l.cur * 10) answer).2.tdiv 10) <;>
        · rw [Sound, hnext]
          exact hs
  | idle | entered num | reset l | head l | search l | finish l | returned ret num =>
      refine ⟨?_, rfl⟩
      rw [Sound, hpc]
      rw [hpc] at hs
      exact hs

/-- Only the flag, the stops and the ghost flag matter to `AtPc`. -/
theorem AtPc.mono {s s' : State} {pc : ScanPc} (h : AtPc s pc)
    (hstopped : s'.stopped = true → s.stopped = true)
    (hstored : StopPc.stored ∈ s'.stops → StopPc.stored ∈ s.stops)
    (hflag : s.scanStop = true → s'.scanStop = true) : AtPc s' pc := by
  cases pc with
  | idle | entered num | reset l => trivial
  | head l | inFlight l | finish l =>
      exact ⟨fun h' => hflag (h.1 (hstopped h')), fun h' => hflag (h.2 (hstored h'))⟩
  | search l =>
      refine ⟨Bool.eq_false_iff.2 fun h' => ?_, fun h' => hflag (h.2 (hstored h'))⟩
      have hclear := hstopped h'
      rw [h.1] at hclear
      cases hclear
  | returned ret num => exact fun h' => h (hstopped h')

theorem sound_stopStep {s : State} (hs : Sound s) (i : Nat) (ok : Bool)
    (hin : StopsInTime s (.stopStep i ok)) : Sound (stopStep K i ok s) := by
  unfold stopStep
  split
  · -- the call sets the flag
    show AtPc _ s.scan
    unfold Sound at hs
    cases hpc : s.scan with
    | idle | entered num | reset l => trivial
    | head l | inFlight l | finish l => exact ⟨fun _ => rfl, fun _ => rfl⟩
    | search l =>
        rw [hpc] at hs
        exact ⟨hs.1, fun _ => rfl⟩
    | returned ret num =>
        rw [hpc] at hs
        exact hs
  · rename_i hcall
    have hmem : StopPc.stored ∈ s.stops := List.mem_of_getElem? hcall
    show AtPc _ s.scan
    unfold Sound at hs
    cases hpc : s.scan with
    | idle | entered num | reset l => trivial
    | head l | inFlight l | finish l =>
        rw [hpc] at hs
        exact ⟨fun _ => hs.2 hmem, fun _ => hs.2 hmem⟩
    | search l =>
        have hnot := hin hcall
        rw [hpc] at hnot
        cases hnot
    | returned ret num =>
        rw [hpc] at hs
        intro h
        have hor : (s.stopped || false) = true := h
        rw [Bool.or_false] at hor
        exact hs hor
  · exact hs

theorem stopped_scanStep (s : State) : (scanStep K s).stopped = s.stopped := by
  unfold scanStep
  cases s.scan with
  | idle | inFlight l | returned ret num | reset l | finish l => rfl
  | entered num | search l =>
      dsimp only
      split <;> rfl
  | head l =>
      dsimp only
      split
      · rfl
      · split <;> rfl

theorem stopped_searched (answer : Option Int) (s : State) :
    (searched answer s).stopped = s.stopped := by
  unfold searched
  split
  · dsimp only
    split <;> rfl
  · rfl

theorem stopStep_keeps (i : Nat) (ok : Bool) (s : State) :
    (stopStep K i ok s).searches = s.searches ∧
      (s.stopped = true → (stopStep K i ok s).stopped = true) := by
  unfold stopStep
  split
  · exact ⟨rfl, id⟩
  · exact ⟨rfl, fun h => by simp only [h, Bool.true_or]⟩
  · exact ⟨rfl, id⟩

/-- One step: the invariant stays, and a stop that has returned takes effect. -/
theorem sound_step {s : State} (hs : Sound s) {e : Event} (hin : StopsInTime s e) :
    Sound (step K s e) ∧ StopTakesEffect K s e := by
  have hended {s' : State} (hs' : Sound s') (hstopped : s'.stopped = true) :
      s'.scan.succeeded = false := by
    unfold Sound at hs'
    cases hpc : s'.scan with
    | returned ret num =>
        rw [hpc] at hs'
        exact decide_eq_false (hs' hstopped)
    | _ => rfl
  cases e with
  | scan num =>
      unfold StopTakesEffect step
      dsimp only
      split
      · exact ⟨hs, fun hstopped => ⟨rfl, hended hs hstopped⟩⟩
      · exact ⟨trivial, fun _ => ⟨rfl, rfl⟩⟩
  | scanStep =>
      obtain ⟨hs', hsearches⟩ := sound_scanStep (K := K) hs hin
      refine ⟨hs', fun hstopped => ⟨hsearches hstopped, hended hs' ?_⟩⟩
      exact (stopped_scanStep s).trans hstopped
  | searched answer =>
      obtain ⟨hs', hsearches⟩ := sound_searched hs answer
      refine ⟨hs', fun hstopped => ⟨hsearches, hended hs' ?_⟩⟩
      exact (stopped_searched answer s).trans hstopped
  | stop =>
      have hs' : Sound (step K s .stop) := by
        refine AtPc.mono hs id (fun hstored => ?_) id
        rcases List.mem_append.1 hstored with h | h
        · exact h
        · cases List.mem_singleton.1 h
      exact ⟨hs', fun hstopped => ⟨rfl, hended hs' hstopped⟩⟩
  | stopStep i ok =>
      obtain ⟨hsearches, hstopped'⟩ := stopStep_keeps (K := K) i ok s
      have hs' := sound_stopStep (K := K) hs i ok hin
      exact ⟨hs', fun hstopped => ⟨hsearches, hended hs' (hstopped' hstopped)⟩⟩

/-- In every run whose stops come in time, the scan issues no search after a stop has returned and
then ends in failure. -/
theorem stops_take_effect (K : FmrConst) (fd : Int) (events : List Event)
    (hin : Run.EachStep (step K) StopsInTime (opened fd) events) :
    Run.EachStep (step K) (StopTakesEffect K) (opened fd) events := by
  have hsound : Run.Always (step K) Sound (opened fd) events :=
    Run.always_of_eachStep (fun s e hs he => (sound_step hs he).1) trivial hin
  exact Run.eachStep_of_always_of_eachStep (fun s e hs he => (sound_step hs he).2) hsound hin

/-- The error numbers of one header. -/
def someConst : FmrConst := ⟨1, by decide⟩

/-- A stop during a search: the driver answers it with a failure. -/
def stoppedRun : List Event :=
  [.scan 50, .scanStep, .scanStep, .scanStep, .scanStep, .searched (some 901), .scanStep, .scanStep,
    .stop, .stopStep 0 true, .stopStep 0 true, .searched none, .scanStep]

theorem stops_take_effect_stoppedRun :
    Run.EachStep (step someConst) (StopTakesEffect someConst) (opened 3) stoppedRun :=
  stops_take_effect someConst 3 stoppedRun (by decide)

/-- A stop that comes and goes before the scan clears the flag: the scan searches on, and ends with
a station list. -/
def earlyStop : List Event :=
  [.scan 1, .scanStep, .stop, .stopStep 0 true, .stopStep 0 true, .scanStep, .scanStep, .scanStep,
    .searched (some 901), .scanStep, .scanStep]

theorem early_stop_is_lost :
    (Run.final (step someConst) (opened 3) earlyStop).scan = .returned 0 1 ∧
      ¬ Run.EachStep (step someConst) (StopTakesEffect someConst) (opened 3) earlyStop := by
  decide

end LineageA1000.Fm
