import LineageA1000.Lib.Run

/-!
# The power HAL

`power_sc8830.c`: the HAL steers the cpufreq policy through its two limits. Every entry point
changes the state under the lock and ends in `apply_locked`, which writes only what changed, so the
limits the HAL remembers have to be the policy's own. The state carries the policy and, as a log,
the limits the policy has had after each single
write. -/

namespace LineageA1000.Power

abbrev FREQ_MIN : Int := 768000
abbrev FREQ_INTERACTIVE : Int := 1000000
abbrev FREQ_LAUNCH : Int := 1200000
abbrev FREQ_MAX : Int := 1300000
abbrev FREQ_MAX_SCREEN_OFF : Int := 1000000
abbrev FREQ_MAX_LOW_POWER : Int := 1000000

abbrev BOOST_MS_INTERACTION : Nat := 800
abbrev BOOST_MS_LAUNCH : Nat := 2000

/-- `struct a1000_power`; times are milliseconds of the monotonic clock. -/
structure A1000Power where
  screenOn : Bool
  lowPower : Bool
  boostFreq : Int
  boostUntilMs : Nat
  curMin : Int
  curMax : Int
  inited : Bool
  deriving DecidableEq, Repr

/-- The static value of `g_pwr`. -/
def gPwr : A1000Power := ⟨true, false, 0, 0, -1, -1, false⟩

/-- The kernel's side of the two files. -/
structure Policy where
  scalingMin : Int
  scalingMax : Int
  deriving DecidableEq, Repr

def Policy.Legal (p : Policy) : Prop := p.scalingMin ≤ p.scalingMax

instance (p : Policy) : Decidable p.Legal :=
  inferInstanceAs (Decidable (p.scalingMin ≤ p.scalingMax))

structure System where
  pwr : A1000Power
  policy : Policy
  /-- The policy after each write, the last write first. -/
  log : List Policy
  deriving DecidableEq

/-! ### Writing the limits -/

/-- Whether the writes of one `apply_locked` succeed, should they be made. -/
structure Writes where
  raiseMax : Bool
  moveMin : Bool
  lowerMax : Bool
  deriving DecidableEq

def Writes.ok : Writes := ⟨true, true, true⟩

/-- `sysfs_write_int(CPUFREQ_MIN, value)`; a failure is only logged, and the value is remembered. -/
def writeMin (ok : Bool) (value : Int) (s : System) : System :=
  let policy := if ok then { s.policy with scalingMin := value } else s.policy
  { s with policy := policy, log := policy :: s.log, pwr.curMin := value }

/-- `sysfs_write_int(CPUFREQ_MAX, value)`. -/
def writeMax (ok : Bool) (value : Int) (s : System) : System :=
  let policy := if ok then { s.policy with scalingMax := value } else s.policy
  { s with policy := policy, log := policy :: s.log, pwr.curMax := value }

def wantMax (p : A1000Power) : Int :=
  let want := if p.screenOn then FREQ_MAX else FREQ_MAX_SCREEN_OFF
  if p.lowPower ∧ want > FREQ_MAX_LOW_POWER then FREQ_MAX_LOW_POWER else want

def wantMin (p : A1000Power) : Int :=
  let want := if p.boostFreq > 0 then p.boostFreq else FREQ_MIN
  if want > wantMax p then wantMax p else want

/-- The first write of `apply_locked`: the window grows upwards. -/
def raiseMax (ok : Bool) (max : Int) (s : System) : System :=
  if max > s.pwr.curMax then writeMax ok max s else s

def moveMin (ok : Bool) (min : Int) (s : System) : System :=
  if min ≠ s.pwr.curMin then writeMin ok min s else s

/-- The last write of `apply_locked`: the window shrinks from above. -/
def lowerMax (ok : Bool) (max : Int) (s : System) : System :=
  if max < s.pwr.curMax then writeMax ok max s else s

/-- `apply_locked`: the window is widened first and narrowed last. -/
def applyLocked (w : Writes) (s : System) : System :=
  let max := wantMax s.pwr
  let min := wantMin s.pwr
  lowerMax w.lowerMax max (moveMin w.moveMin min (raiseMax w.raiseMax max s))

/-! ### The entry points and the boost thread -/

/-- One pass of the loop of `boost_thread_fn` at the time `now`: a boost whose deadline has come is
taken back, otherwise the thread goes back to sleep. -/
def boostThreadPass (w : Writes) (now : Nat) (s : System) : System :=
  if s.pwr.boostFreq = 0 then s
  else if now ≥ s.pwr.boostUntilMs then applyLocked w { s with pwr.boostFreq := 0 }
  else s

/-- `boost`; `now` is the time read before the lock is taken. -/
def boost (w : Writes) (freq : Int) (durationMs now : Nat) (s : System) : System :=
  applyLocked w { s with
    pwr.boostFreq := if freq > s.pwr.boostFreq then freq else s.pwr.boostFreq
    pwr.boostUntilMs :=
      if now + durationMs > s.pwr.boostUntilMs then now + durationMs else s.pwr.boostUntilMs }

/-- `a1000_power_init`; of the writes it makes the first raises the upper limit. -/
def a1000PowerInit (w : Writes) (s : System) : System :=
  if s.pwr.inited then s
  else
    let s := writeMin w.moveMin FREQ_MIN (writeMax w.raiseMax FREQ_MAX s)
    { s with pwr.inited := true }

def a1000SetInteractive (w : Writes) (on : Bool) (s : System) : System :=
  applyLocked w { s with
    pwr.screenOn := on
    pwr.boostFreq := if on then s.pwr.boostFreq else 0
    pwr.boostUntilMs := if on then s.pwr.boostUntilMs else 0 }

/-- `power_hint_t`, as far as the HAL tells hints apart; `data` is whether a pointer came along. -/
inductive PowerHint where
  | interaction
  | launch
  | lowPower (data : Bool)
  | vsync
  | other (hint : Int)
  deriving DecidableEq

def a1000PowerHint (w : Writes) (hint : PowerHint) (now : Nat) (s : System) : System :=
  match hint with
  | .interaction => boost w FREQ_INTERACTIVE BOOST_MS_INTERACTION now s
  | .launch => boost w FREQ_LAUNCH BOOST_MS_LAUNCH now s
  | .lowPower data => applyLocked w { s with pwr.lowPower := data }
  | .vsync | .other _ => s

inductive Operation where
  | init
  | powerHint (hint : PowerHint) (now : Nat)
  | setInteractive (on : Bool)
  | boostThread (now : Nat)
  deriving DecidableEq

/-- What takes the lock, with the outcome of its writes. A hint reads the clock before it, so the
times of a run need not be in order. -/
structure Call where
  op : Operation
  writes : Writes
  deriving DecidableEq

def step (s : System) (c : Call) : System :=
  match c.op with
  | .init => a1000PowerInit c.writes s
  | .powerHint hint now => a1000PowerHint c.writes hint now s
  | .setInteractive on => a1000SetInteractive c.writes on s
  | .boostThread now => boostThreadPass c.writes now s

/-- The HAL just initialised over any policy, with successful writes and an empty log. -/
def started (policy : Policy) : System := { a1000PowerInit .ok ⟨gPwr, policy, []⟩ with log := [] }

/-! ### The limits as a function of the inputs -/

/-- The upper limit: lower with the screen off or in the low power mode. -/
def ceiling (screenOn lowPower : Bool) : Int := if screenOn && !lowPower then FREQ_MAX else 1000000

/-- The limits that belong to the inputs: the boost is the lower limit, kept under the upper one. -/
def limits (screenOn lowPower : Bool) (boostFreq : Int) : Int × Int :=
  (min (if boostFreq > 0 then boostFreq else FREQ_MIN) (ceiling screenOn lowPower),
    ceiling screenOn lowPower)

theorem wantMax_eq (p : A1000Power) : wantMax p = ceiling p.screenOn p.lowPower := by
  rw [wantMax, ceiling]
  cases p.screenOn <;> cases p.lowPower <;> decide

theorem wantMin_eq (p : A1000Power) :
    wantMin p = min (if p.boostFreq > 0 then p.boostFreq else FREQ_MIN) (wantMax p) := by
  rw [wantMin]
  generalize (if p.boostFreq > 0 then p.boostFreq else FREQ_MIN) = want
  simp only [min_def]
  split <;> split <;> omega

theorem limits_eq (p : A1000Power) :
    limits p.screenOn p.lowPower p.boostFreq = (wantMin p, wantMax p) := by
  rw [limits, wantMin_eq, wantMax_eq]

theorem wantMin_le_wantMax (p : A1000Power) : wantMin p ≤ wantMax p := by
  rw [wantMin_eq]
  exact min_le_right _ _

/-! ### What the writes keep -/

/-- The remembered limits are the policy's own, and no write has left an illegal policy. -/
structure Tracks (s : System) : Prop where
  curMin : s.pwr.curMin = s.policy.scalingMin
  curMax : s.pwr.curMax = s.policy.scalingMax
  legal : s.policy.Legal
  log : ∀ p ∈ s.log, p.Legal
  inited : s.pwr.inited = true

/-- The limits are those that belong to the inputs. -/
def Canonical (s : System) : Prop :=
  (s.pwr.curMin, s.pwr.curMax) = limits s.pwr.screenOn s.pwr.lowPower s.pwr.boostFreq

theorem tracks_writeMax {s : System} (hs : Tracks s) {value : Int} (hvalue : s.pwr.curMin ≤ value) :
    Tracks (writeMax true value s) := by
  have hlegal : Policy.Legal { s.policy with scalingMax := value } := by
    show s.policy.scalingMin ≤ value
    rw [← hs.curMin]
    exact hvalue
  exact ⟨hs.curMin, rfl, hlegal, List.forall_mem_cons.2 ⟨hlegal, hs.log⟩, hs.inited⟩

theorem tracks_writeMin {s : System} (hs : Tracks s) {value : Int} (hvalue : value ≤ s.pwr.curMax) :
    Tracks (writeMin true value s) := by
  have hlegal : Policy.Legal { s.policy with scalingMin := value } := by
    show value ≤ s.policy.scalingMax
    rw [← hs.curMax]
    exact hvalue
  exact ⟨rfl, hs.curMax, hlegal, List.forall_mem_cons.2 ⟨hlegal, hs.log⟩, hs.inited⟩

/-- Changing the inputs alone touches neither the limits nor the log. -/
theorem Tracks.of_inputs {s : System} (hs : Tracks s) {pwr : A1000Power}
    (hmin : pwr.curMin = s.pwr.curMin) (hmax : pwr.curMax = s.pwr.curMax)
    (hinited : pwr.inited = s.pwr.inited) : Tracks { s with pwr := pwr } :=
  ⟨hmin.trans hs.curMin, hmax.trans hs.curMax, hs.legal, hs.log, hinited.trans hs.inited⟩

/-- After the first write the upper limit is at least the wanted one. -/
theorem raiseMax_spec {s : System} (hs : Tracks s) (max : Int) :
    Tracks (raiseMax true max s) ∧ max ≤ (raiseMax true max s).pwr.curMax ∧
      ∃ cur, (raiseMax true max s).pwr = { s.pwr with curMax := cur } := by
  rw [raiseMax]
  split
  · rename_i hgrow
    have hmin : s.pwr.curMin ≤ max := by
      have hlegal : s.policy.scalingMin ≤ s.policy.scalingMax := hs.legal
      rw [← hs.curMin, ← hs.curMax] at hlegal
      omega
    exact ⟨tracks_writeMax hs hmin, le_refl max, max, rfl⟩
  · rename_i hgrow
    exact ⟨hs, not_lt.1 hgrow, s.pwr.curMax, rfl⟩

theorem moveMin_spec {s : System} (hs : Tracks s) {min : Int} (hmin : min ≤ s.pwr.curMax) :
    Tracks (moveMin true min s) ∧ (moveMin true min s).pwr = { s.pwr with curMin := min } := by
  rw [moveMin]
  split
  · exact ⟨tracks_writeMin hs hmin, rfl⟩
  · rename_i hsame
    refine ⟨hs, ?_⟩
    rw [not_not.1 hsame]

theorem lowerMax_spec {s : System} (hs : Tracks s) {max : Int} (hmin : s.pwr.curMin ≤ max)
    (hmax : max ≤ s.pwr.curMax) :
    Tracks (lowerMax true max s) ∧ (lowerMax true max s).pwr = { s.pwr with curMax := max } := by
  rw [lowerMax]
  split
  · exact ⟨tracks_writeMax hs hmin, rfl⟩
  · rename_i hsame
    have heq : max = s.pwr.curMax := by omega
    refine ⟨hs, ?_⟩
    rw [heq]

/-- Applying the inputs leaves the limits that belong to them and no illegal policy on the way. -/
theorem applyLocked_spec {s : System} (hs : Tracks s) :
    Tracks (applyLocked .ok s) ∧
      (applyLocked .ok s).pwr =
        { s.pwr with curMin := wantMin s.pwr, curMax := wantMax s.pwr } := by
  have hwant := wantMin_le_wantMax s.pwr
  obtain ⟨hraised, hroom, cur, hpwr⟩ := raiseMax_spec hs (wantMax s.pwr)
  obtain ⟨hmoved, hpwr'⟩ := moveMin_spec hraised (hwant.trans hroom)
  have hmin : (moveMin true (wantMin s.pwr) (raiseMax true (wantMax s.pwr) s)).pwr.curMin ≤
      wantMax s.pwr := by
    rw [hpwr']
    exact hwant
  have hmax : wantMax s.pwr ≤
      (moveMin true (wantMin s.pwr) (raiseMax true (wantMax s.pwr) s)).pwr.curMax := by
    rw [hpwr']
    exact hroom
  obtain ⟨hlowered, hpwr''⟩ := lowerMax_spec hmoved hmin hmax
  refine ⟨hlowered, ?_⟩
  show (lowerMax true (wantMax s.pwr) (moveMin true (wantMin s.pwr)
    (raiseMax true (wantMax s.pwr) s))).pwr = _
  rw [hpwr'', hpwr', hpwr]

/-! ### Every operation -/

/-- The invariant of the runs: the policy is tracked and its limits belong to the inputs. -/
def Sound (s : System) : Prop := Tracks s ∧ Canonical s

theorem sound_applyLocked {s : System} (hs : Tracks s) : Sound (applyLocked .ok s) := by
  obtain ⟨htracks, hpwr⟩ := applyLocked_spec hs
  refine ⟨htracks, ?_⟩
  rw [Canonical, hpwr]
  exact (limits_eq s.pwr).symm

theorem sound_boost (freq : Int) (durationMs now : Nat) {s : System} (hs : Sound s) :
    Sound (boost .ok freq durationMs now s) :=
  sound_applyLocked (hs.1.of_inputs rfl rfl rfl)

theorem sound_step {s : System} (hs : Sound s) {c : Call} (hc : c.writes = .ok) :
    Sound (step s c) := by
  obtain ⟨op, writes⟩ := c
  subst hc
  cases op with
  | init =>
      show Sound (a1000PowerInit .ok s)
      rw [a1000PowerInit, if_pos hs.1.inited]
      exact hs
  | powerHint hint now =>
      cases hint with
      | interaction => exact sound_boost _ _ now hs
      | launch => exact sound_boost _ _ now hs
      | lowPower data => exact sound_applyLocked (hs.1.of_inputs rfl rfl rfl)
      | vsync => exact hs
      | other hint => exact hs
  | setInteractive on => exact sound_applyLocked (hs.1.of_inputs rfl rfl rfl)
  | boostThread now =>
      show Sound (boostThreadPass .ok now s)
      rw [boostThreadPass]
      split
      · exact hs
      split
      · exact sound_applyLocked (hs.1.of_inputs rfl rfl rfl)
      · exact hs

theorem sound_started (policy : Policy) : Sound (started policy) := by
  refine ⟨⟨rfl, rfl, ?_, List.forall_mem_nil _, rfl⟩, ?_⟩
  · show FREQ_MIN ≤ FREQ_MAX
    decide
  · show (FREQ_MIN, FREQ_MAX) = limits true false 0
    decide

/-- However the operations interleave, no single write leaves the lower limit above the upper one,
and after each operation the limits are the function `limits` of the inputs. -/
theorem limits_canonical (policy : Policy) (calls : List Call) (hok : ∀ c ∈ calls, c.writes = .ok) :
    Run.Always step (fun s => (∀ p ∈ s.log, p.Legal) ∧
      s.policy = ⟨s.pwr.curMin, s.pwr.curMax⟩ ∧
      (s.pwr.curMin, s.pwr.curMax) = limits s.pwr.screenOn s.pwr.lowPower s.pwr.boostFreq)
      (started policy) calls := by
  have hsound : Run.Always step Sound (started policy) calls :=
    Run.always_of_eachStep (fun s c hs hc => sound_step hs hc) (sound_started policy)
      (Run.eachStep_of_forall (Q := fun c : Call => c.writes = .ok) hok)
  refine hsound.mono fun s hs => ⟨hs.1.log, ?_, hs.2⟩
  rw [hs.1.curMin, hs.1.curMax]

/-- A touch with the screen on, the screen going dark under a launch boost, the low power mode, and
the screen coming back. -/
def screenCalls : List Call :=
  [⟨.powerHint .interaction 100, .ok⟩, ⟨.powerHint .launch 300, .ok⟩, ⟨.setInteractive false, .ok⟩,
    ⟨.powerHint (.lowPower true) 500, .ok⟩, ⟨.setInteractive true, .ok⟩, ⟨.boostThread 2400, .ok⟩]

theorem limits_canonical_screenCalls :
    Run.Always step (fun s => (∀ p ∈ s.log, p.Legal) ∧
      s.policy = ⟨s.pwr.curMin, s.pwr.curMax⟩ ∧
      (s.pwr.curMin, s.pwr.curMax) = limits s.pwr.screenOn s.pwr.lowPower s.pwr.boostFreq)
      (started ⟨300000, 900000⟩) screenCalls :=
  limits_canonical _ _ (by decide)

end LineageA1000.Power
