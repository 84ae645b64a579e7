import LineageA1000.Shim.Pixel
import Mathlib.Data.Nat.Basic

/-!
# The pixel clock that gives the measured period

The kernel reports a pixel clock computed from the frame rate asked for. The shim measures the
period between vertical blanks and replaces the clock by the quotient of that period and the area,
computed in 64 bits and then kept in an `unsigned long` of 32. Everything about the correction
follows from the quotient, so long as those 32 bits hold it.
-/

namespace LineageA1000.Shim

/-- A measured period in nanoseconds: none, or one in the window. -/
structure Period where
  ns : Nat
  accepted : ns = 0 ∨ 8000000 < ns ∧ ns < 30000000
  deriving DecidableEq, Repr

def Period.none : Period := ⟨0, .inl rfl⟩

theorem toNat_mem_window {t : Int} (h : 8000000 < t ∧ t < 30000000) :
    8000000 < t.toNat ∧ t.toNat < 30000000 := by
  omega

/-- `a1000_measure_period`: what eight waits took, or nothing when one of the waits failed. -/
def measurePeriod (waits : Option (BitVec 32)) : Period :=
  match waits with
  | none => .none
  | some elapsed =>
      if h : 8000000 < elapsed.toInt.tdiv 8 ∧ elapsed.toInt.tdiv 8 < 30000000 then
        ⟨(elapsed.toInt.tdiv 8).toNat, .inr (toNat_mem_window h)⟩
      else .none

/-- What is read of `struct fb_var_screeninfo`. -/
structure VarScreenInfo where
  xres : Word
  yres : Word
  pixclock : Word
  deriving DecidableEq, Repr

/-- The static variables: the period once it is measured, the switch once it is read. -/
structure Vsync where
  period : Period
  on : Option Bool
  deriving DecidableEq, Repr

/-- An `ioctl` that succeeded: whether it was `FBIOGET_VSCREENINFO` with an argument, what
`debug.sf.a1000_truefps` says, and what a measurement finds, should one be made. -/
structure VsyncCall where
  getsScreenInfo : Bool
  truefps : Bool
  waits : Option (BitVec 32)
  deriving DecidableEq, Repr

/-- The two operands of the division, in 64 bits. -/
def scaledPeriod (period : Period) : BitVec 64 := BitVec.ofNat 64 period.ns * 1000

def area (vi : VarScreenInfo) : BitVec 64 := vi.xres.setWidth 64 * vi.yres.setWidth 64

/-- The quotient as the `unsigned long` holds it. -/
def newPixclock (period : Period) (vi : VarScreenInfo) : Word :=
  (scaledPeriod period / area vi).setWidth 32

/-- The period a call goes by. -/
def Vsync.measured (s : Vsync) (c : VsyncCall) : Period :=
  if s.period.ns = 0 then measurePeriod c.waits else s.period

/-- The correction is wanted. -/
def Vsync.active (s : Vsync) (c : VsyncCall) : Bool :=
  c.getsScreenInfo && s.on.getD c.truefps

/-- The clock is replaced by a quotient that looks like a clock and is another one. -/
def correctClock (period : Period) (vi : VarScreenInfo) : VarScreenInfo :=
  if period.ns = 0 ∨ vi.xres = 0 ∨ vi.yres = 0 then vi
  else
    let px := newPixclock period vi
    if 1000 < px ∧ px < 1000000 ∧ px ≠ vi.pixclock then { vi with pixclock := px } else vi

/-- `a1000_fix_vsync_period`. -/
def fixVsyncPeriod (c : VsyncCall) (s : Vsync) (vi : VarScreenInfo) : Vsync × VarScreenInfo :=
  if c.getsScreenInfo then
    let on := s.on.getD c.truefps
    if on then (⟨s.measured c, some on⟩, correctClock (s.measured c) vi)
    else (⟨s.period, some on⟩, vi)
  else (s, vi)

/-! ### The numbers without their widths -/

def VarScreenInfo.pixels (vi : VarScreenInfo) : Nat := vi.xres.toNat * vi.yres.toNat

theorem scaledPeriod_toNat (period : Period) : (scaledPeriod period).toNat = period.ns * 1000 := by
  have hns : period.ns < 30000000 := by
    have haccepted := period.accepted
    omega
  have hmul : (scaledPeriod period).toNat = (BitVec.ofNat 64 period.ns).toNat * 1000 % 2 ^ 64 :=
    BitVec.toNat_mul _ _
  rw [hmul, BitVec.toNat_ofNat, Nat.mod_eq_of_lt (by omega), Nat.mod_eq_of_lt (by omega)]

theorem area_toNat (vi : VarScreenInfo) : (area vi).toNat = vi.pixels := by
  have hmul : vi.xres.toNat * vi.yres.toNat < 2 ^ 64 :=
    (Nat.mul_lt_mul'' vi.xres.isLt vi.yres.isLt).trans_eq (by decide)
  unfold area VarScreenInfo.pixels
  rw [BitVec.toNat_mul, BitVec.toNat_setWidth_of_le (by decide),
    BitVec.toNat_setWidth_of_le (by decide), Nat.mod_eq_of_lt hmul]

theorem newPixclock_toNat (period : Period) (vi : VarScreenInfo) :
    (newPixclock period vi).toNat = period.ns * 1000 / vi.pixels % 2 ^ 32 := by
  unfold newPixclock
  rw [BitVec.toNat_setWidth, BitVec.toNat_udiv, scaledPeriod_toNat, area_toNat]

/-! ### When the clock is replaced -/

/-- The quotient takes the place of the clock. -/
def Replaces (period : Period) (vi : VarScreenInfo) : Prop :=
  period.ns ≠ 0 ∧ vi.xres ≠ 0 ∧ vi.yres ≠ 0 ∧ 1000 < newPixclock period vi ∧
    newPixclock period vi < 1000000 ∧ newPixclock period vi ≠ vi.pixclock

theorem correctClock_replaces {period : Period} {vi : VarScreenInfo} (h : Replaces period vi) :
    correctClock period vi = { vi with pixclock := newPixclock period vi } := by
  obtain ⟨hns, hx, hy, hclock⟩ := h
  unfold correctClock
  rw [if_neg (not_or.2 ⟨hns, not_or.2 ⟨hx, hy⟩⟩)]
  exact if_pos hclock

theorem correctClock_keeps {period : Period} {vi : VarScreenInfo} (h : ¬Replaces period vi) :
    correctClock period vi = vi := by
  unfold correctClock
  split
  · rfl
  · rename_i harea
    obtain ⟨hns, hres⟩ := not_or.1 harea
    obtain ⟨hx, hy⟩ := not_or.1 hres
    exact if_neg fun hclock => h ⟨hns, hx, hy, hclock⟩

/-- The clock put in is the one the next correction would put in. -/
theorem correctClock_idem (period : Period) (vi : VarScreenInfo) :
    correctClock period (correctClock period vi) = correctClock period vi := by
  by_cases h : Replaces period vi
  · apply correctClock_keeps
    rw [correctClock_replaces h]
    exact fun hagain => hagain.2.2.2.2.2 rfl
  · rw [correctClock_keeps h]
    exact correctClock_keeps h

theorem fixVsyncPeriod_changes_iff {c : VsyncCall} {s : Vsync} {vi : VarScreenInfo} :
    (fixVsyncPeriod c s vi).2 ≠ vi ↔ s.active c ∧ Replaces (s.measured c) vi := by
  unfold fixVsyncPeriod Vsync.active
  have hclock : correctClock (s.measured c) vi ≠ vi ↔ Replaces (s.measured c) vi := by
    constructor
    · intro hne
      by_contra h
      exact hne (correctClock_keeps h)
    · intro h heq
      rw [correctClock_replaces h] at heq
      exact h.2.2.2.2.2 (congrArg VarScreenInfo.pixclock heq)
  cases c.getsScreenInfo <;> cases s.on.getD c.truefps <;> simp [hclock]

theorem fixVsyncPeriod_active {c : VsyncCall} {s : Vsync} (vi : VarScreenInfo)
    (h : s.active c = true) :
    fixVsyncPeriod c s vi = (⟨s.measured c, some true⟩, correctClock (s.measured c) vi) := by
  obtain ⟨hget, hon⟩ := Bool.and_eq_true_iff.1 h
  unfold fixVsyncPeriod
  simp only [hget, hon, if_true]

/-- Once a period is measured, correcting what was corrected changes nothing. -/
theorem fixVsyncPeriod_idem {period : Period} (hns : period.ns ≠ 0) (c : VsyncCall)
    (vi : VarScreenInfo) :
    fixVsyncPeriod c ⟨period, some true⟩ (correctClock period vi) =
      (⟨period, some true⟩, correctClock period vi) := by
  unfold fixVsyncPeriod
  split
  · simp only [Option.getD_some, if_true, Vsync.measured, if_neg hns, correctClock_idem]
  · rfl

/-! ### What the clock gives -/

/-- The clock gives the period to within a step, no number on the way to it wrapped, and a further
call changes nothing. -/
structure Reproduces (period : Period) (vi : VarScreenInfo) (s' : Vsync) (vi' : VarScreenInfo) :
    Prop where
  below : (period.ns * 1000 : Int) - vi.pixels < vi.pixels * vi'.pixclock.toNat
  above : (vi.pixels * vi'.pixclock.toNat : Int) ≤ period.ns * 1000
  scaled : (scaledPeriod period).toNat = period.ns * 1000
  area : (area vi).toNat = vi.pixels
  quotient : (newPixclock period vi).toNat = period.ns * 1000 / vi.pixels
  again : ∀ c, fixVsyncPeriod c s' vi' = (s', vi')

theorem pixels_pos_iff {vi : VarScreenInfo} : 0 < vi.pixels ↔ vi.xres ≠ 0 ∧ vi.yres ≠ 0 := by
  have hzero (w : Word) : w.toNat ≠ 0 ↔ w ≠ 0 := (BitVec.toNat_inj (x := w) (y := 0)).not
  rw [VarScreenInfo.pixels, Nat.pos_iff_ne_zero, Nat.mul_ne_zero_iff, hzero, hzero]

/-- The low 32 bits of the quotient look like another clock. -/
structure LooksLikeClock (period : Period) (vi : VarScreenInfo) : Prop where
  measured : period.ns ≠ 0
  pixels : 0 < vi.pixels
  above : 1000 < period.ns * 1000 / vi.pixels % 2 ^ 32
  below : period.ns * 1000 / vi.pixels % 2 ^ 32 < 1000000
  another : period.ns * 1000 / vi.pixels % 2 ^ 32 ≠ vi.pixclock.toNat

theorem replaces_iff {period : Period} {vi : VarScreenInfo} :
    Replaces period vi ↔ LooksLikeClock period vi := by
  have habove : 1000 < newPixclock period vi ↔ 1000 < period.ns * 1000 / vi.pixels % 2 ^ 32 := by
    rw [BitVec.lt_def, newPixclock_toNat]
    exact Iff.rfl
  have hbelow : newPixclock period vi < 1000000 ↔
      period.ns * 1000 / vi.pixels % 2 ^ 32 < 1000000 := by
    rw [BitVec.lt_def, newPixclock_toNat]
    exact Iff.rfl
  have hanother : newPixclock period vi ≠ vi.pixclock ↔
      period.ns * 1000 / vi.pixels % 2 ^ 32 ≠ vi.pixclock.toNat := by
    rw [ne_eq, ← BitVec.toNat_inj, newPixclock_toNat]
  unfold Replaces
  rw [habove, hbelow, hanother]
  constructor
  · intro ⟨hns, hx, hy, hclock⟩
    exact ⟨hns, pixels_pos_iff.2 ⟨hx, hy⟩, hclock.1, hclock.2.1, hclock.2.2⟩
  · intro h
    obtain ⟨hx, hy⟩ := pixels_pos_iff.1 h.pixels
    exact ⟨h.measured, hx, hy, h.above, h.below, h.another⟩

theorem reproduces_of_fits {period : Period} {vi : VarScreenInfo} (h : LooksLikeClock period vi)
    (hfits : period.ns * 1000 < 2 ^ 32 * vi.pixels) :
    Reproduces period vi ⟨period, some true⟩ (correctClock period vi) := by
  have hquotient : (newPixclock period vi).toNat = period.ns * 1000 / vi.pixels := by
    rw [newPixclock_toNat]
    exact Nat.mod_eq_of_lt ((Nat.div_lt_iff_lt_mul h.pixels).2 hfits)
  have hle : (newPixclock period vi).toNat * vi.pixels ≤ period.ns * 1000 := by
    rw [hquotient]
    exact Nat.div_mul_le_self _ _
  have hlt : period.ns * 1000 < (newPixclock period vi).toNat * vi.pixels + vi.pixels := by
    rw [hquotient]
    exact Nat.lt_div_mul_add h.pixels
  have hagain := fun c => fixVsyncPeriod_idem h.measured c vi
  rw [Nat.mul_comm (newPixclock period vi).toNat] at hle hlt
  rw [correctClock_replaces (replaces_iff.2 h)] at hagain ⊢
  refine ⟨?_, ?_, scaledPeriod_toNat period, area_toNat vi, hquotient, hagain⟩
  · dsimp only
    omega
  · dsimp only
    omega

/-- For every call, state and screen: a clock that is put in reproduces the period exactly when,
for a quotient whose low 32 bits look like another clock, there are no higher bits. -/
theorem fixVsyncPeriod_reproduces_iff (c : VsyncCall) (s : Vsync) (vi : VarScreenInfo) :
    ((fixVsyncPeriod c s vi).2 ≠ vi →
      Reproduces (s.measured c) vi (fixVsyncPeriod c s vi).1 (fixVsyncPeriod c s vi).2) ↔
    (s.active c → LooksLikeClock (s.measured c) vi →
      (s.measured c).ns * 1000 < 2 ^ 32 * vi.pixels) := by
  rw [fixVsyncPeriod_changes_iff, replaces_iff]
  constructor
  · intro hclaim hactive hclock
    have hquotient := (hclaim ⟨hactive, hclock⟩).quotient
    rw [← Nat.div_lt_iff_lt_mul hclock.pixels, ← hquotient]
    exact BitVec.isLt _
  · intro hfits ⟨hactive, hclock⟩
    rw [fixVsyncPeriod_active vi hactive]
    exact reproduces_of_fits hclock (hfits hactive hclock)

/-- A screen of one pixel and a period of 8589936 ns: of the quotient 8589936000 the low 32 bits are
1408. -/
theorem fixVsyncPeriod_wraps :
    fixVsyncPeriod ⟨true, true, some 68719488⟩ ⟨.none, none⟩ ⟨1, 1, 16666⟩ =
        (⟨⟨8589936, .inr (by decide)⟩, some true⟩, ⟨1, 1, 1408⟩) ∧
      ¬((8589936 * 1000 : Int) - 1 * 1 < 1 * 1 * 1408) := by
  decide

end LineageA1000.Shim
