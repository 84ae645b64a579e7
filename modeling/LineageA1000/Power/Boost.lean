import LineageA1000.Power.Hal

/-!
# Overlapping boosts

With the screen on and the low power mode off, what the HAL does is decided by its boost requests
and the wakeups of its thread. It keeps one frequency and one deadline for all the requests that
overlap, so a request's frequency stays in force until the last deadline of the series it belongs
to. Each request keeps its level for its own window exactly as long as one of the strongest requests
of the series is still inside its
window. -/

namespace LineageA1000.Power

/-- A boost request: a frequency of the policy, for a time that starts when the request reads the
clock. -/
structure Request where
  freq : Int
  durationMs : Nat
  issued : Nat
  pos : 0 < freq
  le_max : freq ≤ FREQ_MAX
  deriving DecidableEq

namespace Request

/-- What `power_hint` requests for a touch at the time `now`. -/
def interaction (now : Nat) : Request :=
  ⟨FREQ_INTERACTIVE, BOOST_MS_INTERACTION, now, by decide, by decide⟩

/-- What `power_hint` requests for the start of an application at the time `now`. -/
def launch (now : Nat) : Request := ⟨FREQ_LAUNCH, BOOST_MS_LAUNCH, now, by decide, by decide⟩

def deadline (r : Request) : Nat := r.issued + r.durationMs

/-- The request's window covers the time. -/
def Open (t : Nat) (r : Request) : Prop := r.issued ≤ t ∧ t < r.deadline

instance (t : Nat) : DecidablePred (Open t) := fun r =>
  inferInstanceAs (Decidable (r.issued ≤ t ∧ t < r.deadline))

end Request

inductive BoostCall where
  | request (r : Request)
  | wakeup (now : Nat)
  deriving DecidableEq

namespace BoostCall

def time : BoostCall → Nat
  | request r => r.issued
  | wakeup now => now

def request? : BoostCall → Option Request
  | request r => some r
  | wakeup _ => none

def wakeup? : BoostCall → Option Nat
  | request _ => none
  | wakeup now => some now

end BoostCall

def boostStep (s : System) : BoostCall → System
  | .request r => boost .ok r.freq r.durationMs r.issued s
  | .wakeup now => boostThreadPass .ok now s

theorem powerHint_interaction (now : Nat) (s : System) :
    step s ⟨.powerHint .interaction now, .ok⟩ = boostStep s (.request (.interaction now)) := rfl

theorem powerHint_launch (now : Nat) (s : System) :
    step s ⟨.powerHint .launch now, .ok⟩ = boostStep s (.request (.launch now)) := rfl

theorem boostThread_wakeup (now : Nat) (s : System) :
    step s ⟨.boostThread now, .ok⟩ = boostStep s (.wakeup now) := rfl

/-! ### The floor that belongs to the windows -/

/-- The highest frequency requested, `0` for no request. -/
def strongest (rs : List Request) : Int := rs.foldr (fun r freq => max r.freq freq) 0

/-- The floor when every request counts for its own window and for nothing else. -/
def windowFloor (rs : List Request) (t : Nat) : Int :=
  let opened := rs.filter (Request.Open t)
  if opened = [] then FREQ_MIN else strongest opened

theorem strongest_cons (r : Request) (rs : List Request) :
    strongest (r :: rs) = max r.freq (strongest rs) := rfl

theorem le_strongest {r : Request} {rs : List Request} (hr : r ∈ rs) : r.freq ≤ strongest rs := by
  induction rs with
  | nil => exact absurd hr List.not_mem_nil
  | cons q rs ih =>
      rw [strongest_cons]
      rcases List.mem_cons.1 hr with rfl | hr
      · exact le_max_left _ _
      · exact (ih hr).trans (le_max_right _ _)

theorem strongest_le {rs : List Request} {freq : Int} (hfreq : 0 ≤ freq)
    (hall : ∀ r ∈ rs, r.freq ≤ freq) : strongest rs ≤ freq := by
  induction rs with
  | nil => exact hfreq
  | cons q rs ih =>
      obtain ⟨hq, hrest⟩ := List.forall_mem_cons.1 hall
      exact max_le hq (ih hrest)

theorem exists_strongest {rs : List Request} (hne : rs ≠ []) : ∃ r ∈ rs, r.freq = strongest rs := by
  induction rs with
  | nil => exact absurd rfl hne
  | cons q rs ih =>
      rw [strongest_cons]
      rcases eq_or_ne rs [] with rfl | hrs
      · exact ⟨q, List.mem_cons_self .., (max_eq_left q.pos.le).symm⟩
      · obtain ⟨r, hr, hfreq⟩ := ih hrs
        rcases le_total (strongest rs) q.freq with hle | hle
        · exact ⟨q, List.mem_cons_self .., (max_eq_left hle).symm⟩
        · exact ⟨r, List.mem_cons_of_mem _ hr, by rw [hfreq, max_eq_right hle]⟩

theorem strongest_eq_zero_iff {rs : List Request} : strongest rs = 0 ↔ rs = [] := by
  constructor
  · intro hzero
    by_contra hne
    obtain ⟨r, hr, hfreq⟩ := exists_strongest hne
    have hpos := r.pos
    omega
  · rintro rfl
    rfl

theorem strongest_nonneg (rs : List Request) : 0 ≤ strongest rs := by
  induction rs with
  | nil => exact le_refl 0
  | cons q rs ih => exact ih.trans (le_max_right _ _)

/-! ### Series of requests -/

/-- The series goes on with every request and ends with a wakeup that finds every window closed. -/
def seriesStep (rs : List Request) : BoostCall → List Request
  | .request r => r :: rs
  | .wakeup now => if ∀ r ∈ rs, r.deadline ≤ now then [] else rs

/-- The requests of the series that the calls end in. -/
def series (calls : List BoostCall) : List Request := calls.foldl seriesStep []

/-- One of the strongest requests is inside its window, unless there is none at all. -/
def StrongestOpen (rs : List Request) (t : Nat) : Prop :=
  ∀ q ∈ rs, ∃ p ∈ rs, p.Open t ∧ q.freq ≤ p.freq

/-- The calls lie before `t`, and the one thread that waits reads a clock that never goes back. The
requests may have waited for the lock, so they come in any order. -/
structure TimedBy (calls : List BoostCall) (t : Nat) : Prop where
  past : ∀ c ∈ calls, c.time ≤ t
  wakeups : (calls.filterMap BoostCall.wakeup?).Pairwise (· ≤ ·)

/-- No wakeup is due. -/
def Settled (s : System) (t : Nat) : Prop := s.pwr.boostFreq = 0 ∨ t < s.pwr.boostUntilMs

/-- The state after some requests, of which `rs` are the series, with the last wakeup at `clock`:
the HAL boosts to the strongest of the series until the last of its deadlines, and nothing outside
the series is open at `t`. -/
structure Boosting (t : Nat) (s : System) (all rs : List Request) (clock : Nat) : Prop where
  sound : Sound s
  screenOn : s.pwr.screenOn = true
  lowPower : s.pwr.lowPower = false
  boostFreq : s.pwr.boostFreq = strongest rs
  deadlines : ∀ r ∈ rs, r.deadline ≤ s.pwr.boostUntilMs
  last : s.pwr.boostUntilMs ≤ clock ∨ ∃ r ∈ rs, r.deadline = s.pwr.boostUntilMs
  subset : ∀ r ∈ rs, r ∈ all
  past : ∀ r ∈ all, r.issued ≤ t
  closed : ∀ r ∈ all, r ∉ rs → r.deadline ≤ t
  clock_le : clock ≤ t

theorem sound_boostStep {s : System} (hs : Sound s) (c : BoostCall) : Sound (boostStep s c) := by
  cases c with
  | request r => exact sound_boost _ _ _ hs
  | wakeup now => exact sound_step hs (c := ⟨.boostThread now, .ok⟩) rfl

/-- A boost raises the frequency and the deadline to its own, and nothing else. -/
theorem boost_spec {s : System} (hs : Tracks s) (freq : Int) (durationMs now : Nat) :
    (boost .ok freq durationMs now s).pwr.boostFreq = max freq s.pwr.boostFreq ∧
      (boost .ok freq durationMs now s).pwr.boostUntilMs =
        max (now + durationMs) s.pwr.boostUntilMs ∧
      (boost .ok freq durationMs now s).pwr.screenOn = s.pwr.screenOn ∧
      (boost .ok freq durationMs now s).pwr.lowPower = s.pwr.lowPower := by
  obtain ⟨-, hpwr⟩ := applyLocked_spec (s := { s with
    pwr.boostFreq := if freq > s.pwr.boostFreq then freq else s.pwr.boostFreq
    pwr.boostUntilMs :=
      if now + durationMs > s.pwr.boostUntilMs then now + durationMs else s.pwr.boostUntilMs })
    (hs.of_inputs rfl rfl rfl)
  rw [boost, hpwr]
  refine ⟨?_, ?_, rfl, rfl⟩
  · show (if freq > s.pwr.boostFreq then freq else s.pwr.boostFreq) = _
    rw [max_def]
    split <;> split <;> omega
  · show (if now + durationMs > s.pwr.boostUntilMs then now + durationMs
      else s.pwr.boostUntilMs) = _
    rw [max_def]
    split <;> split <;> omega

theorem boosting_request {t clock : Nat} {s : System} {all rs : List Request}
    (hb : Boosting t s all rs clock) {r : Request} (hr : r.issued ≤ t) :
    Boosting t (boostStep s (.request r)) (all ++ [r]) (r :: rs) clock := by
  have hsound := sound_boostStep hb.sound (.request r)
  obtain ⟨hfreq, huntil, hscreen, hlow⟩ :=
    boost_spec hb.sound.1 r.freq r.durationMs r.issued
  refine ⟨hsound, ?_, ?_, ?_, ?_, ?_, ?_, ?_, ?_, hb.clock_le⟩
  · exact hscreen.trans hb.screenOn
  · exact hlow.trans hb.lowPower
  · rw [strongest_cons, ← hb.boostFreq]
    exact hfreq
  · rw [boostStep, huntil]
    refine List.forall_mem_cons.2 ⟨le_max_left _ _, fun q hq => ?_⟩
    exact (hb.deadlines q hq).trans (le_max_right _ _)
  · rw [boostStep, huntil]
    show max r.deadline s.pwr.boostUntilMs ≤ clock ∨
      ∃ q ∈ r :: rs, q.deadline = max r.deadline s.pwr.boostUntilMs
    rcases le_total r.deadline s.pwr.boostUntilMs with hle | hle
    · rw [max_eq_right hle]
      rcases hb.last with hstale | ⟨q, hq, hlast⟩
      · exact Or.inl hstale
      · exact Or.inr ⟨q, List.mem_cons_of_mem _ hq, hlast⟩
    · rw [max_eq_left hle]
      exact Or.inr ⟨r, List.mem_cons_self .., rfl⟩
  · refine List.forall_mem_cons.2 ⟨List.mem_append_right _ (List.mem_singleton_self r), ?_⟩
    exact fun q hq => List.mem_append_left _ (hb.subset q hq)
  · intro q hq
    rcases List.mem_append.1 hq with hq | hq
    · exact hb.past q hq
    · rwa [List.mem_singleton.1 hq]
  · intro q hq hclosed
    rcases List.mem_append.1 hq with hq | hq
    · exact hb.closed q hq fun hmem => hclosed (List.mem_cons_of_mem _ hmem)
    · rw [List.mem_singleton.1 hq] at hclosed
      exact absurd (List.mem_cons_self ..) hclosed

/-- The thread takes the boost back exactly when the series ends. -/
theorem boosting_wakeup {t clock now : Nat} {s : System} {all rs : List Request}
    (hb : Boosting t s all rs clock) (hclock : clock ≤ now) (hnow : now ≤ t) :
    Boosting t (boostStep s (.wakeup now)) all (seriesStep rs (.wakeup now)) now := by
  have hsound := sound_boostStep hb.sound (.wakeup now)
  have hlast : s.pwr.boostUntilMs ≤ now ∨ ∃ r ∈ rs, r.deadline = s.pwr.boostUntilMs :=
    hb.last.imp_left fun hstale => hstale.trans hclock
  rw [boostStep, boostThreadPass, seriesStep] at *
  by_cases hends : ∀ r ∈ rs, r.deadline ≤ now
  · rw [if_pos hends]
    have huntil : s.pwr.boostUntilMs ≤ now := by
      rcases hlast with hstale | ⟨r, hr, hdeadline⟩
      · exact hstale
      · rw [← hdeadline]
        exact hends r hr
    have hclosed : ∀ r ∈ all, r ∉ ([] : List Request) → r.deadline ≤ t := by
      intro r hr _
      by_cases hmem : r ∈ rs
      · exact (hends r hmem).trans hnow
      · exact hb.closed r hr hmem
    by_cases hidle : s.pwr.boostFreq = 0
    · rw [if_pos hidle] at hsound ⊢
      exact ⟨hsound, hb.screenOn, hb.lowPower, hidle, List.forall_mem_nil _, Or.inl huntil,
        List.forall_mem_nil _, hb.past, hclosed, hnow⟩
    · rw [if_neg hidle, if_pos huntil] at hsound ⊢
      obtain ⟨-, hpwr⟩ := applyLocked_spec (s := { s with pwr.boostFreq := 0 })
        (hb.sound.1.of_inputs rfl rfl rfl)
      refine ⟨hsound, ?_, ?_, ?_, List.forall_mem_nil _, Or.inl ?_, List.forall_mem_nil _,
        hb.past, hclosed, hnow⟩ <;> rw [hpwr]
      · exact hb.screenOn
      · exact hb.lowPower
      · rfl
      · exact huntil
  · rw [if_neg hends]
    have hkeep : (if s.pwr.boostFreq = 0 then s
        else if now ≥ s.pwr.boostUntilMs then applyLocked .ok { s with pwr.boostFreq := 0 }
        else s) =
        s := by
      split
      · rfl
      · refine if_neg fun hdue => hends fun r hr => ?_
        exact (hb.deadlines r hr).trans hdue
    rw [hkeep] at hsound ⊢
    exact ⟨hsound, hb.screenOn, hb.lowPower, hb.boostFreq, hb.deadlines, hlast, hb.subset,
      hb.past, hb.closed, hnow⟩

theorem boosting_run {t : Nat} (calls : List BoostCall) {s : System} {all rs : List Request}
    {clock : Nat} (hb : Boosting t s all rs clock) (hpast : ∀ c ∈ calls, c.time ≤ t)
    (hwakeups : (clock :: calls.filterMap BoostCall.wakeup?).Pairwise (· ≤ ·)) :
    ∃ clock', Boosting t (Run.final boostStep s calls)
      (all ++ calls.filterMap BoostCall.request?) (calls.foldl seriesStep rs) clock' := by
  induction calls generalizing s all rs clock with
  | nil =>
      rw [List.filterMap_nil, List.append_nil]
      exact ⟨clock, hb⟩
  | cons c calls ih =>
      obtain ⟨hc, hrest⟩ := List.forall_mem_cons.1 hpast
      cases c with
      | request r =>
          obtain ⟨clock', hfinal⟩ := ih (boosting_request hb hc) hrest hwakeups
          rw [List.append_assoc] at hfinal
          exact ⟨clock', hfinal⟩
      | wakeup now =>
          obtain ⟨hfirst, hwakeups⟩ := List.pairwise_cons.1 hwakeups
          exact ih (boosting_wakeup hb (hfirst now (List.mem_cons_self ..)) hc) hrest hwakeups

theorem boosting_started (policy : Policy) (t : Nat) : Boosting t (started policy) [] [] 0 :=
  ⟨sound_started policy, rfl, rfl, rfl, List.forall_mem_nil _, Or.inl le_rfl, List.forall_mem_nil _,
    List.forall_mem_nil _, List.forall_mem_nil _, Nat.zero_le t⟩

/-! ### The floor in force -/

theorem Boosting.mem_open {t clock : Nat} {s : System} {all rs : List Request}
    (hb : Boosting t s all rs clock) {r : Request} (hr : r ∈ all) (hopen : r.Open t) : r ∈ rs := by
  by_contra hclosed
  have hdeadline := hb.closed r hr hclosed
  have hlt := hopen.2
  omega

/-- The floor in force is the strongest request of the series. -/
theorem Boosting.floor {t clock : Nat} {s : System} {all rs : List Request}
    (hb : Boosting t s all rs clock) :
    s.policy.scalingMin = if rs = [] then FREQ_MIN else strongest rs := by
  have hcanon : (s.pwr.curMin, s.pwr.curMax) =
      limits s.pwr.screenOn s.pwr.lowPower s.pwr.boostFreq := hb.sound.2
  have hmin : s.pwr.curMin = (limits s.pwr.screenOn s.pwr.lowPower s.pwr.boostFreq).1 :=
    congrArg Prod.fst hcanon
  rw [hb.screenOn, hb.lowPower, hb.boostFreq] at hmin
  rw [← hb.sound.1.curMin, hmin]
  show min _ FREQ_MAX = _
  rcases eq_or_ne rs [] with rfl | hne
  · decide
  · have hle : strongest rs ≤ FREQ_MAX := strongest_le (by decide) fun r _ => r.le_max
    have hpos : strongest rs > 0 :=
      (strongest_nonneg rs).lt_of_ne' (mt strongest_eq_zero_iff.1 hne)
    rw [if_pos hpos, if_neg hne, min_eq_left hle]

/-- With no wakeup due, a series that has not ended has a request in its window. -/
theorem Boosting.exists_open {t clock : Nat} {s : System} {all rs : List Request}
    (hb : Boosting t s all rs clock) (hsettled : Settled s t) (hne : rs ≠ []) :
    ∃ r ∈ rs, r.Open t := by
  have hpending : t < s.pwr.boostUntilMs := by
    rcases hsettled with hidle | hpending
    · rw [hb.boostFreq, strongest_eq_zero_iff] at hidle
      exact absurd hidle hne
    · exact hpending
  rcases hb.last with hstale | ⟨r, hr, hdeadline⟩
  · have hle := hb.clock_le
    omega
  · refine ⟨r, hr, hb.past r (hb.subset r hr), ?_⟩
    rw [hdeadline]
    exact hpending

theorem Boosting.floor_iff {t clock : Nat} {s : System} {all rs : List Request}
    (hb : Boosting t s all rs clock) (hsettled : Settled s t) :
    s.policy.scalingMin = windowFloor all t ↔ StrongestOpen rs t := by
  rw [hb.floor, windowFloor]
  have hopened : ∀ {r : Request}, r ∈ all.filter (Request.Open t) ↔ r ∈ rs ∧ r.Open t := by
    intro r
    rw [List.mem_filter, decide_eq_true_iff]
    constructor
    · intro ⟨hr, hopen⟩
      exact ⟨hb.mem_open hr hopen, hopen⟩
    · intro ⟨hr, hopen⟩
      exact ⟨hb.subset r hr, hopen⟩
  rcases eq_or_ne rs [] with rfl | hne
  · have hnone : all.filter (Request.Open t) = [] := by
      rw [List.eq_nil_iff_forall_not_mem]
      exact fun r hr => absurd (hopened.1 hr).1 List.not_mem_nil
    rw [if_pos rfl]
    simp only [hnone, if_true, StrongestOpen, List.not_mem_nil, false_implies, implies_true]
  · obtain ⟨r₀, hr₀, hopen₀⟩ := hb.exists_open hsettled hne
    have hsome : all.filter (Request.Open t) ≠ [] :=
      List.ne_nil_of_mem (hopened.2 ⟨hr₀, hopen₀⟩)
    simp only [if_neg hne, if_neg hsome]
    constructor
    · intro hfloor q hq
      obtain ⟨p, hp, hfreq⟩ := exists_strongest hsome
      obtain ⟨hp, hopen⟩ := hopened.1 hp
      refine ⟨p, hp, hopen, ?_⟩
      rw [hfreq, ← hfloor]
      exact le_strongest hq
    · intro hstrong
      obtain ⟨q, hq, hfreq⟩ := exists_strongest hne
      obtain ⟨p, hp, hopen, hle⟩ := hstrong q hq
      apply le_antisymm
      · rw [← hfreq]
        exact hle.trans (le_strongest (hopened.2 ⟨hp, hopen⟩))
      · exact strongest_le (strongest_nonneg rs) fun r hr => le_strongest (hopened.1 hr).1

/-- At a time with no wakeup due, the floor in force is the maximum over the requests inside their
own windows if and only if one of the strongest requests of the series is inside its own. -/
theorem floor_iff_strongestOpen (policy : Policy) (calls : List BoostCall) (t : Nat)
    (htimed : TimedBy calls t) (hsettled : Settled (Run.final boostStep (started policy) calls) t) :
    (Run.final boostStep (started policy) calls).policy.scalingMin =
        windowFloor (calls.filterMap BoostCall.request?) t ↔
      StrongestOpen (series calls) t := by
  have hwakeups : (0 :: calls.filterMap BoostCall.wakeup?).Pairwise (· ≤ ·) :=
    List.pairwise_cons.2 ⟨fun now _ => Nat.zero_le now, htimed.wakeups⟩
  obtain ⟨clock, hb⟩ := boosting_run calls (boosting_started policy t) htimed.past hwakeups
  exact hb.floor_iff hsettled

/-- A touch, the start of an application while the touch still counts, and a wakeup between the ends
of the two windows. -/
def launchCalls : List BoostCall :=
  [.request (.interaction 100), .request (.launch 300), .wakeup 900]

theorem floor_iff_strongestOpen_launchCalls :
    (Run.final boostStep (started ⟨768000, 1300000⟩) launchCalls).policy.scalingMin =
        windowFloor (launchCalls.filterMap BoostCall.request?) 1500 ↔
      StrongestOpen (series launchCalls) 1500 :=
  floor_iff_strongestOpen _ _ _ ⟨by decide, by decide⟩ (Or.inr (by decide))

/-- A touch shortly before the end of a launch boost: the level of the launch stays in force for the
touch's window. -/
theorem touch_extends_launch :
    TimedBy [.request (.launch 0), .request (.interaction 1500), .wakeup 2000] 2100 ∧
      Settled (Run.final boostStep (started ⟨768000, 1300000⟩)
        [.request (.launch 0), .request (.interaction 1500), .wakeup 2000]) 2100 ∧
      (Run.final boostStep (started ⟨768000, 1300000⟩)
        [.request (.launch 0), .request (.interaction 1500), .wakeup 2000]).policy.scalingMin =
          1200000 ∧
      windowFloor [.launch 0, .interaction 1500] 2100 = 1000000 :=
  ⟨⟨by decide, by decide⟩, Or.inr (by decide), by decide, by decide⟩

end LineageA1000.Power
