import LineageA1000.Regulator.Dcdc

/-!
# What a DCDC is set to

`dcdc_set_voltage` splits a request into the selector least below it and a number of trim steps, and
`dcdc_get_voltage` puts a voltage together from the two fields. The steps are taken modulo 32 before
the bias of `vddmem` is added, a selector that is missing is answered by what `WARN` returns, and a
trim that does not fit its field is a `BUG`.
-/

namespace LineageA1000.Regulator

/-! ### Fields -/

/-- The mask is a run of `w` bits. -/
def HasWidth (bits : Word) (w : Nat) : Prop :=
  bits >>> ffs bits = BitVec.ofNat 32 (2 ^ w - 1) ∧ w ≤ 32

instance (bits : Word) (w : Nat) : Decidable (HasWidth bits w) :=
  inferInstanceAs (Decidable (_ ∧ _))

theorem getLsbD_of_hasWidth {bits : Word} {w : Nat} (h : HasWidth bits w) {k : Nat} (hk : k < w) :
    bits.getLsbD (ffs bits + k) = true := by
  have hbit := congrArg (fun v => v.getLsbD k) h.1
  simp only [BitVec.getLsbD_ushiftRight, BitVec.getLsbD_ofNat] at hbit
  rw [hbit, Nat.testBit_two_pow_sub_one]
  have hw := h.2
  simp only [hk, decide_true, Bool.and_true, decide_eq_true_eq]
  omega

/-- A value of the width of its mask is put into the mask. -/
theorem shiftLeft_and_mask {bits v : Word} {w : Nat} (h : HasWidth bits w) (hv : v.toNat < 2 ^ w) :
    v <<< ffs bits &&& bits = v <<< ffs bits := by
  apply BitVec.eq_of_getLsbD_eq
  intro i hi
  rw [BitVec.getLsbD_and, BitVec.getLsbD_shiftLeft]
  by_cases hlow : i < ffs bits
  · simp [hlow]
  · by_cases hin : i - ffs bits < w
    · have hbit := getLsbD_of_hasWidth h hin
      rw [Nat.add_sub_cancel' (Nat.not_lt.1 hlow)] at hbit
      rw [hbit, Bool.and_true]
    · have hzero : v.getLsbD (i - ffs bits) = false := by
        apply Nat.testBit_lt_two_pow
        exact lt_of_lt_of_le hv (Nat.pow_le_pow_right (by decide) (Nat.not_lt.1 hin))
      rw [hzero, Bool.and_false, Bool.false_and]

/-- A value of the width of its mask is read back. -/
theorem field_shiftLeft {bits v : Word} {w : Nat} (h : HasWidth bits w) (hv : v.toNat < 2 ^ w) :
    field bits (v <<< ffs bits) = v := by
  rw [field, shiftLeft_and_mask h hv]
  apply BitVec.eq_of_getLsbD_eq
  intro i hi
  rw [BitVec.getLsbD_ushiftRight, BitVec.getLsbD_shiftLeft]
  by_cases hin : i < w
  · have hbit := getLsbD_of_hasWidth h hin
    have hlt : ffs bits + i < 32 := BitVec.lt_of_getLsbD hbit
    simp only [hlt, decide_true, Bool.true_and, Nat.not_lt.2 (Nat.le_add_right _ _), decide_false,
      Bool.not_false, Nat.add_sub_cancel_left]
  · have hzero : v.getLsbD i = false := by
      apply Nat.testBit_lt_two_pow
      exact lt_of_lt_of_le hv (Nat.pow_le_pow_right (by decide) (Nat.not_lt.1 hin))
    rw [Nat.add_sub_cancel_left, hzero, Bool.and_false]

theorem field_or {bits a b : Word} (hb : b &&& bits = 0#32) :
    field bits (a ||| b) = field bits a := by
  unfold field
  congr 1
  apply BitVec.eq_of_getLsbD_eq
  intro i hi
  have hbit := congrArg (fun v => v.getLsbD i) hb
  simp only [BitVec.getLsbD_and, BitVec.getLsbD_zero] at hbit
  simp only [BitVec.getLsbD_and, BitVec.getLsbD_or, Bool.and_or_distrib_right, hbit, Bool.or_false]

/-! ### The selector -/

/-- The microvolts from a selector up to the request. -/
def above (d : Regs) (vol : Word) (i : Nat) : Int := (vol - d.volSel i).toInt

/-- What the search over the first `k` selectors has found. -/
structure Closest (d : Regs) (vol : Word) (k : Nat) (found : Option Nat × Int) : Prop where
  none : found.1 = none → found.2 = 100 * 1000
  some : ∀ i, found.1 = some i → i < k ∧ 0 ≤ above d vol i ∧ found.2 = above d vol i ∧
    found.2 < 100 * 1000
  least : ∀ i < k, 0 ≤ above d vol i → found.2 ≤ above d vol i

theorem Closest.le {d : Regs} {vol : Word} {k : Nat} {found : Option Nat × Int}
    (h : Closest d vol k found) : found.2 ≤ 100 * 1000 := by
  cases hfound : found.1 with
  | none => exact le_of_eq (h.none hfound)
  | some i => exact le_of_lt (h.some i hfound).2.2.2

theorem Closest.take {d : Regs} {vol : Word} {k : Nat} {found : Option Nat × Int}
    (h : Closest d vol k found) (hpos : 0 ≤ above d vol k) (hcloser : above d vol k < found.2) :
    Closest d vol (k + 1) (Option.some k, above d vol k) := by
  apply Closest.mk
  · exact fun hnone => nomatch hnone
  · intro i hi
    cases hi
    exact ⟨Nat.lt_succ_self k, hpos, rfl, hcloser.trans_le h.le⟩
  · intro i hi hpos'
    rcases Nat.lt_succ_iff_lt_or_eq.1 hi with hlt | rfl
    · exact hcloser.le.trans (h.least i hlt hpos')
    · exact le_refl _

theorem Closest.skip {d : Regs} {vol : Word} {k : Nat} {found : Option Nat × Int}
    (h : Closest d vol k found) (hfarther : ¬ (0 ≤ above d vol k ∧ above d vol k < found.2)) :
    Closest d vol (k + 1) found := by
  apply Closest.mk
  · exact h.none
  · intro i hi
    obtain ⟨hlt, hrest⟩ := h.some i hi
    exact ⟨Nat.lt_succ_of_lt hlt, hrest⟩
  · intro i hi hpos
    rcases Nat.lt_succ_iff_lt_or_eq.1 hi with hlt | rfl
    · exact h.least i hlt hpos
    · rw [not_and, not_lt] at hfarther
      exact hfarther hpos

theorem closest_foldl (d : Regs) (vol : Word) (k : Nat) :
    Closest d vol k ((List.range k).foldl (fun (j, minDs) i =>
      let ds := (vol - d.volSel i).toInt
      if 0 ≤ ds ∧ ds < minDs then (some i, ds) else (j, minDs)) (none, 100 * 1000)) := by
  induction k with
  | zero =>
      apply Closest.mk
      · exact fun _ => rfl
      · intro i hi
        cases hi
      · intro i hi
        exact absurd hi (Nat.not_lt_zero i)
  | succ k ih =>
      rw [List.range_succ, List.foldl_append, List.foldl_cons, List.foldl_nil]
      generalize (List.range k).foldl _ _ = found at ih
      dsimp only
      split
      · rename_i hcloser
        exact ih.take hcloser.1 hcloser.2
      · rename_i hfarther
        exact ih.skip hfarther

/-- The selector that is found is less than 100 mV below the request, and none is closer. -/
theorem matchDcdcVol_eq_some {d : Regs} {vol : Word} {i : Nat} (h : matchDcdcVol d vol = some i) :
    i < d.volSelCnt ∧ 0 ≤ above d vol i ∧ above d vol i < 100 * 1000 ∧
      ∀ i' < d.volSelCnt, 0 ≤ above d vol i' → above d vol i ≤ above d vol i' := by
  have hclosest := closest_foldl d vol d.volSelCnt
  obtain ⟨hlt, hpos, hds, hnear⟩ := hclosest.some i h
  refine ⟨hlt, hpos, by omega, fun i' hi' hpos' => ?_⟩
  rw [← hds]
  exact hclosest.least i' hi' hpos'

/-- A selector that is missing is not there for anyone: all are above the request or 100 mV below.
-/
theorem matchDcdcVol_eq_none {d : Regs} {vol : Word} (h : matchDcdcVol d vol = none) :
    ∀ i < d.volSelCnt, 0 ≤ above d vol i → 100 * 1000 ≤ above d vol i := by
  have hclosest := closest_foldl d vol d.volSelCnt
  intro i hi hpos
  have hleast := hclosest.least i hi hpos
  rwa [hclosest.none h] at hleast

/-! ### What has to hold -/

/-- A descriptor with one to eight selectors, each a voltage that is still an `int` 100 mV higher,
and a positive step, whose trim field has the five bits that the steps are counted in and whose
selector field has room for the table. -/
structure WellFormed (d : Regs) : Prop where
  selCnt : 1 ≤ d.volSelCnt ∧ d.volSelCnt ≤ 8
  step : 0 < d.stepUv.toInt
  sel : ∀ i < d.volSelCnt, 0 ≤ (d.volSel i).toInt ∧ (d.volSel i).toInt + 100 * 1000 < 2 ^ 31
  trm : HasWidth d.volTrmBits 5
  ctl : ∃ w, HasWidth d.volCtlBits w ∧ d.volSelCnt ≤ 2 ^ w
  disjoint : d.volTrm = d.volCtl → d.volTrmBits &&& d.volCtlBits = 0#32

/-- What is read back lies less than a step below the request; or the request is refused and the
registers are as they were. -/
def SetsOrRefuses (d : Regs) (s : Adi) (minUv : Word) : Prop :=
  ∃ o, setVoltage d s minUv = some o ∧
    (o.ret = 0 ∧ (∃ v, getVoltage d (o.last s) = some v ∧ minUv.toInt - d.stepUv.toInt < v ∧
        v ≤ minUv.toInt) ∨
      o.ret < 0 ∧ o.last s d.volCtl = s d.volCtl ∧ o.last s d.volTrm = s d.volTrm)

/-- How many steps of the trim are counted right: none without a register, and of the 32 steps of
the field those that the bias leaves. -/
def trimRange (d : Regs) : Int :=
  if d.volTrm = 0 then 1 else 32 - (dcdcInitialValue d).toInt

/-- The DCDC has no control register, or one of its selectors is below the request by less than
100 mV and within the steps of the trim. -/
def Reaches (d : Regs) (minUv : Word) : Prop :=
  d.volCtl = 0 ∨ ∃ i < d.volSelCnt, (d.volSel i).toInt ≤ minUv.toInt ∧
    minUv.toInt < (d.volSel i).toInt + 100 * 1000 ∧
    minUv.toInt < (d.volSel i).toInt + trimRange d * d.stepUv.toInt

/-! ### The trim -/

variable {d : Regs} {minUv : Word} {i : Nat}

theorem dcdcInitialValue_cases (d : Regs) :
    dcdcInitialValue d = 0 ∨ dcdcInitialValue d = 0x10 := by
  rw [dcdcInitialValue]
  split
  · exact .inr rfl
  · exact .inl rfl

/-- A selector that is close below the request is so in whole numbers. -/
theorem above_eq (hsel : 0 ≤ (d.volSel i).toInt ∧ (d.volSel i).toInt + 100 * 1000 < 2 ^ 31)
    (hclose : 0 ≤ above d minUv i ∧ above d minUv i < 100 * 1000 ∨
      (d.volSel i).toInt ≤ minUv.toInt) :
    above d minUv i = minUv.toInt - (d.volSel i).toInt := by
  have hlow := BitVec.le_toInt minUv
  have hhigh := BitVec.toInt_lt (x := minUv)
  have hselHigh := BitVec.toInt_lt (x := d.volSel i)
  unfold above at hclose ⊢
  rw [BitVec.toInt_sub] at hclose ⊢
  by_cases hrange : -2 ^ 31 ≤ minUv.toInt - (d.volSel i).toInt
  · apply Int.bmod_eq_of_le <;> omega
  · have hwrap : (minUv.toInt - (d.volSel i).toInt).bmod (2 ^ 32) =
        minUv.toInt - (d.volSel i).toInt + 2 ^ 32 := by
      rw [← Int.add_bmod_right]
      apply Int.bmod_eq_of_le <;> omega
    rw [hwrap] at hclose
    omega

/-- The trim for a selector below the request. -/
theorem toNat_trimFor (hpos : 0 ≤ above d minUv i) (hstep : 0 < d.stepUv.toInt) :
    ((trimFor d minUv i).toNat : Int) =
      above d minUv i / d.stepUv.toInt % 32 + (dcdcInitialValue d).toInt := by
  have hq : 0 ≤ above d minUv i / d.stepUv.toInt := Int.ediv_nonneg hpos (le_of_lt hstep)
  have htrim : trimFor d minUv i =
      BitVec.ofInt 32 (above d minUv i / d.stepUv.toInt % 32) + dcdcInitialValue d := by
    rw [trimFor, ← above, Int.tdiv_eq_ediv_of_nonneg hpos, Int.tmod_eq_emod_of_nonneg hq]
  rw [htrim, BitVec.toNat_add, BitVec.toNat_ofInt]
  rcases dcdcInitialValue_cases d with h | h <;> rw [h]
  · rw [show (0 : Word).toNat = 0 from rfl, show (0 : Word).toInt = 0 from rfl]
    omega
  · rw [show (0x10 : Word).toNat = 16 from rfl, show (0x10 : Word).toInt = 16 from rfl]
    omega

/-- The steps of the trim come to no more than what they are taken from. -/
theorem steps_mul_le {a step : Int} (hpos : 0 ≤ a) (hstep : 0 < step) :
    0 ≤ a / step % 32 * step ∧ a / step % 32 * step ≤ a := by
  have hq : 0 ≤ a / step := Int.ediv_nonneg hpos (le_of_lt hstep)
  constructor
  · exact Int.mul_nonneg (Int.emod_nonneg _ (by decide)) (le_of_lt hstep)
  · calc a / step % 32 * step
        ≤ a / step * step := Int.mul_le_mul_of_nonneg_right (by omega) (le_of_lt hstep)
      _ ≤ a := Int.ediv_mul_le _ (ne_of_gt hstep)

/-- They come within a step of it exactly when none of them is lost to the wrap. -/
theorem lt_steps_mul_iff {a step : Int} (hpos : 0 ≤ a) (hstep : 0 < step) :
    a - step < a / step % 32 * step ↔ a / step < 32 := by
  have hq : 0 ≤ a / step := Int.ediv_nonneg hpos (le_of_lt hstep)
  have hle : a / step * step ≤ a := Int.ediv_mul_le _ (ne_of_gt hstep)
  have hlt : a < (a / step + 1) * step := Int.lt_ediv_add_one_mul_self a hstep
  rw [Int.add_mul, Int.one_mul] at hlt
  constructor
  · intro hnear
    by_contra hmany
    have hlost : a / step % 32 * step ≤ (a / step - 32) * step :=
      Int.mul_le_mul_of_nonneg_right (by omega) (le_of_lt hstep)
    rw [Int.sub_mul] at hlost
    omega
  · intro hfew
    rw [Int.emod_eq_of_lt hq hfew]
    omega

/-- The trim that is read back counts the steps again, up to the wrap. -/
theorem toInt_trim_mul (hpos : 0 ≤ above d minUv i) (hstep : 0 < d.stepUv.toInt)
    (hclose : above d minUv i < 100 * 1000) :
    ((trimFor d minUv i - dcdcInitialValue d) * d.stepUv).toInt =
      above d minUv i / d.stepUv.toInt % 32 * d.stepUv.toInt := by
  have hq : 0 ≤ above d minUv i / d.stepUv.toInt := Int.ediv_nonneg hpos (le_of_lt hstep)
  have htrim : trimFor d minUv i - dcdcInitialValue d =
      BitVec.ofInt 32 (above d minUv i / d.stepUv.toInt % 32) := by
    rw [trimFor, ← above, Int.tdiv_eq_ediv_of_nonneg hpos, Int.tmod_eq_emod_of_nonneg hq,
      BitVec.add_sub_cancel]
  obtain ⟨hprod, hle⟩ := steps_mul_le hpos hstep
  rw [htrim]
  generalize above d minUv i / d.stepUv.toInt % 32 = q at *
  have hword : BitVec.ofInt 32 q * d.stepUv = BitVec.ofInt 32 (q * d.stepUv.toInt) := by
    rw [BitVec.ofInt_mul, BitVec.ofInt_toInt]
  rw [hword, BitVec.toInt_ofInt]
  apply Int.bmod_eq_of_le <;> omega

/-! ### The registers -/

theorem WellFormed.field_trm (h : WellFormed d) {j : Word} (hj : j.toNat ≤ 31) :
    field d.volTrmBits (j <<< ffs d.volTrmBits) = j :=
  field_shiftLeft h.trm (Nat.lt_succ_of_le hj)

/-- Both fields hold what they were meant to hold. -/
theorem WellFormed.field_target (h : WellFormed d) (hi : i < d.volSelCnt) {j : Word}
    (hj : j.toNat ≤ 31) :
    (field d.volCtlBits (target d i j).1).toNat = i ∧
      field d.volTrmBits (target d i j).2 = j := by
  obtain ⟨w, hw, hcnt⟩ := h.ctl
  have hi32 : (BitVec.ofNat 32 i).toNat = i := by
    rw [BitVec.toNat_ofNat, Nat.mod_eq_of_lt]
    have := h.selCnt.2
    omega
  have hiw : (BitVec.ofNat 32 i).toNat < 2 ^ w := by omega
  have hjw : j.toNat < 2 ^ 5 := Nat.lt_succ_of_le hj
  rw [target]
  split
  · rename_i hsame
    have hdisjoint := h.disjoint hsame
    have hctl : BitVec.ofNat 32 i <<< ffs d.volCtlBits &&& d.volTrmBits = 0#32 := by
      rw [← shiftLeft_and_mask hw hiw, BitVec.and_assoc, BitVec.and_comm d.volCtlBits, hdisjoint,
        BitVec.and_zero]
    have htrm : j <<< ffs d.volTrmBits &&& d.volCtlBits = 0#32 := by
      rw [← shiftLeft_and_mask h.trm hjw, BitVec.and_assoc, hdisjoint, BitVec.and_zero]
    constructor
    · rw [BitVec.or_comm, field_or htrm, field_shiftLeft hw hiw, hi32]
    · rw [field_or hctl, h.field_trm hj]
  · constructor
    · rw [field_shiftLeft hw hiw, hi32]
    · exact h.field_trm hj

/-- The voltage that was meant, put together again. -/
theorem WellFormed.voltage_target (h : WellFormed d) (hi : i < d.volSelCnt)
    (hpos : 0 ≤ above d minUv i) (hclose : above d minUv i < 100 * 1000)
    (hj : (trimFor d minUv i).toNat ≤ 31) :
    voltage d (target d i (trimFor d minUv i)).1 (target d i (trimFor d minUv i)).2 =
      (d.volSel i).toInt +
        if d.volTrm = 0 then 0
        else above d minUv i / d.stepUv.toInt % 32 * d.stepUv.toInt := by
  obtain ⟨hctl, htrm⟩ := h.field_target hi hj
  obtain ⟨hprod, hle⟩ := steps_mul_le hpos h.step
  have hsel := h.sel i hi
  rw [voltage, hctl, cal, htrm, BitVec.toInt_add]
  split
  · rw [toInt_trim_mul hpos h.step hclose]
    apply Int.bmod_eq_of_le <;> omega
  · rename_i hnone
    rw [if_pos (not_not.1 hnone), show (0 : Word).toInt = 0 from rfl]
    apply Int.bmod_eq_of_le <;> omega

theorem reported_last (d : Regs) (s : Adi) (i : Nat) (j : Word) :
    reported d ((states s (writes d i j)).getLast?.getD s) =
      voltage d (target d i j).1 (target d i j).2 := by
  by_cases hsep : Separate d
  · obtain ⟨s₁, s₂, htwo, -, hend⟩ := states_separate hsep s i j
    rw [htwo]
    exact hend
  · obtain ⟨s', hone, hend⟩ := states_single hsep s i j
    rw [hone]
    exact hend

/-! ### The call -/

/-- What the call comes to for a descriptor with a control register. -/
theorem WellFormed.setVoltage_eq (h : WellFormed d) (hctl : d.volCtl ≠ 0) (s : Adi)
    (minUv : Word) :
    setVoltage d s minUv =
      match matchDcdcVol d minUv with
      | none => some ⟨1, [], 0⟩
      | some i =>
          if 31 < (trimFor d minUv i).toNat then none
          else
            some ⟨0, states s (writes d i (trimFor d minUv i)),
              enableTime (reported d ((states s (writes d i (trimFor d minUv i))).getLast?.getD s))
                (reported d s)⟩ := by
  have hstep : d.stepUv ≠ 0 := by
    intro hzero
    have hpos := h.step
    rw [hzero] at hpos
    exact absurd hpos (by decide)
  have hget := getVoltage_eq hctl h.selCnt.2 hstep
  rw [setVoltage, hget]
  dsimp only
  rw [if_neg (Nat.not_lt.2 h.selCnt.2), if_neg hctl]
  cases matchDcdcVol d minUv with
  | none => rfl
  | some i =>
      have hbug : (d.stepUv = 0 ∨ d.volTrmBits >>> ffs d.volTrmBits < trimFor d minUv i) ↔
          31 < (trimFor d minUv i).toNat := by
        rw [or_iff_right hstep, h.trm.1, BitVec.lt_def]
        rfl
      dsimp only
      rw [hget]
      simp only [hbug]

/-- Of a selector that is found, only the steps up to the request decide. -/
theorem WellFormed.reaches_iff (h : WellFormed d) (hctl : d.volCtl ≠ 0)
    (hmatch : matchDcdcVol d minUv = some i) :
    Reaches d minUv ↔ above d minUv i < trimRange d * d.stepUv.toInt := by
  obtain ⟨hi, hpos, hclose, hnear⟩ := matchDcdcVol_eq_some hmatch
  have hvalue := above_eq (h.sel i hi) (.inl ⟨hpos, hclose⟩)
  rw [Reaches, or_iff_right hctl]
  constructor
  · intro ⟨i', hi', hbelow, _, hsteps⟩
    have hvalue' := above_eq (h.sel i' hi') (.inr hbelow)
    have := hnear i' hi' (by omega)
    omega
  · intro hsteps
    exact ⟨i, hi, by omega, by omega, by omega⟩

theorem WellFormed.not_reaches (h : WellFormed d) (hctl : d.volCtl ≠ 0)
    (hmatch : matchDcdcVol d minUv = none) : ¬ Reaches d minUv := by
  rw [Reaches, or_iff_right hctl]
  intro ⟨i, hi, hbelow, hclose, _⟩
  have hvalue := above_eq (h.sel i hi) (.inr hbelow)
  have := matchDcdcVol_eq_none hmatch i hi (by omega)
  omega

/-- What is read back is close enough exactly when the trim can count the steps. -/
theorem WellFormed.close_iff (h : WellFormed d) (hi : i < d.volSelCnt)
    (hpos : 0 ≤ above d minUv i) (hclose : above d minUv i < 100 * 1000)
    (hfits : (trimFor d minUv i).toNat ≤ 31) :
    (minUv.toInt - d.stepUv.toInt <
        voltage d (target d i (trimFor d minUv i)).1 (target d i (trimFor d minUv i)).2 ∧
      voltage d (target d i (trimFor d minUv i)).1 (target d i (trimFor d minUv i)).2 ≤
        minUv.toInt) ↔
      above d minUv i < trimRange d * d.stepUv.toInt := by
  have hvalue := above_eq (h.sel i hi) (.inl ⟨hpos, hclose⟩)
  have hstep := h.step
  rw [h.voltage_target hi hpos hclose hfits, trimRange]
  split
  · omega
  · obtain ⟨-, hle⟩ := steps_mul_le hpos hstep
    have hcount := lt_steps_mul_iff hpos hstep
    have htrim := toNat_trimFor hpos hstep
    have hq : 0 ≤ above d minUv i / d.stepUv.toInt := Int.ediv_nonneg hpos (le_of_lt hstep)
    rw [← Int.ediv_lt_iff_lt_mul hstep]
    generalize above d minUv i / d.stepUv.toInt % 32 * d.stepUv.toInt = steps at hle hcount ⊢
    rcases dcdcInitialValue_cases d with hbias | hbias
    · rw [hbias, show (0 : Word).toInt = 0 from rfl]
      omega
    · rw [hbias, show (0x10 : Word).toInt = 16 from rfl] at htrim ⊢
      omega

/-- A trim that does not fit its field is for steps that the bias leaves no room for. -/
theorem WellFormed.not_lt_of_overflow (h : WellFormed d) (hpos : 0 ≤ above d minUv i)
    (hbug : 31 < (trimFor d minUv i).toNat) :
    ¬ above d minUv i < trimRange d * d.stepUv.toInt := by
  have htrim := toNat_trimFor hpos h.step
  have hq : 0 ≤ above d minUv i / d.stepUv.toInt := Int.ediv_nonneg hpos (le_of_lt h.step)
  rw [← Int.ediv_lt_iff_lt_mul h.step, trimRange]
  rcases dcdcInitialValue_cases d with hbias | hbias
  · rw [hbias, show (0 : Word).toInt = 0 from rfl] at htrim
    omega
  · rw [hbias, show (0x10 : Word).toInt = 16 from rfl] at htrim ⊢
    split <;> omega

/-- A DCDC is set to what it is asked for, or refuses, exactly when one of its selectors reaches
the request. -/
theorem setsOrRefuses_iff (d : Regs) (s : Adi) (minUv : Word) (h : WellFormed d) :
    SetsOrRefuses d s minUv ↔ Reaches d minUv := by
  by_cases hctl : d.volCtl = 0
  · apply iff_of_true
    · refine ⟨⟨-EACCES, [], 0⟩, ?_, .inr ⟨by decide, rfl, rfl⟩⟩
      rw [setVoltage, getVoltage, if_pos hctl]
      dsimp only
      rw [if_neg (Nat.not_lt.2 h.selCnt.2), if_pos hctl]
    · exact .inl hctl
  · rw [SetsOrRefuses, h.setVoltage_eq hctl]
    cases hmatch : matchDcdcVol d minUv with
    | none =>
        apply iff_of_false _ (h.not_reaches hctl hmatch)
        intro ⟨o, ho, hret⟩
        cases ho
        obtain ⟨hzero, -⟩ | ⟨hneg, -⟩ := hret
        · exact absurd hzero (by decide)
        · exact absurd hneg (by decide)
    | some i =>
        obtain ⟨hi, hpos, hclose, -⟩ := matchDcdcVol_eq_some hmatch
        rw [h.reaches_iff hctl hmatch]
        dsimp only
        split
        · rename_i hbug
          apply iff_of_false _ (h.not_lt_of_overflow hpos hbug)
          intro ⟨o, ho, _⟩
          cases ho
        · rename_i hfits
          have hstep : d.stepUv ≠ 0 := by
            intro hzero
            have hstep := h.step
            rw [hzero] at hstep
            exact absurd hstep (by decide)
          rw [← h.close_iff hi hpos hclose (Nat.not_lt.1 hfits), ← reported_last d s]
          constructor
          · intro ⟨o, ho, hret⟩
            cases ho
            obtain ⟨-, v, hget, hlow, hhigh⟩ | ⟨hneg, -⟩ := hret
            · rw [getVoltage_eq hctl h.selCnt.2 hstep, Option.some.injEq] at hget
              rw [← hget] at hlow hhigh
              exact ⟨hlow, hhigh⟩
            · exact absurd hneg (show ¬ (0 : Int) < 0 by decide)
          · intro ⟨hlow, hhigh⟩
            exact ⟨_, rfl, .inl ⟨rfl, _, getVoltage_eq hctl h.selCnt.2 hstep _, hlow, hhigh⟩⟩

theorem wellFormed_vddarm : WellFormed vddarm := by
  apply WellFormed.mk
  · decide
  · decide
  · decide
  · decide
  · exact ⟨3, by decide⟩
  · decide

/-- A request of 1 V to `vddarm`. -/
theorem setsOrRefuses_iff_vddarm :
    SetsOrRefuses vddarm (vddarmAt 3 0) 1000000 ↔ Reaches vddarm 1000000 :=
  setsOrRefuses_iff vddarm (vddarmAt 3 0) 1000000 wellFormed_vddarm

/-- A request below every selector returns one and not an error. -/
theorem not_setsOrRefuses_belowTable :
    ¬ ∀ (d : Regs) (s : Adi) (minUv : Word), WellFormed d → SetsOrRefuses d s minUv := by
  intro hall
  obtain ⟨o, ho, hret⟩ := hall vddarm (vddarmAt 3 0) 600000 wellFormed_vddarm
  have hone : setVoltage vddarm (vddarmAt 3 0) 600000 = some ⟨1, [], 0⟩ := by
    have hmatch : matchDcdcVol vddarm 600000 = none := by decide
    rw [wellFormed_vddarm.setVoltage_eq (by decide), hmatch]
  rw [hone] at ho
  cases ho
  obtain ⟨hzero, -⟩ | ⟨hneg, -⟩ := hret
  · exact absurd hzero (by decide)
  · exact absurd hneg (by decide)

end LineageA1000.Regulator
