import LineageA1000.Lib.Errno
import Mathlib.Data.BitVec
import Mathlib.Data.Int.Order.Basic
import Mathlib.Logic.Function.Basic

/-!
# Changing the voltage of a DCDC

A DCDC has a coarse selector, an index into a table of voltages, and a trim of some steps above it.
They are fields of one register or of two. Two registers are written one after the other, the trim
first, and between the writes the old selector stands with the new trim. Here that voltage is
compared with those before and after, and the wait that follows with the rise.
-/

namespace LineageA1000.Regulator

abbrev Word := BitVec 32

/-- `__ffs`; a shift by all 32 bits where there is no bit. -/
def ffs (w : Word) : Nat := (List.range 32).findIdx fun i => w.getLsbD i

/-- What a register holds in the field of a mask. -/
def field (bits reg : Word) : Word := (reg &&& bits) >>> ffs bits

/-- What the DCDC operations read of `struct sci_regulator_desc`: whether it is named `vddmem`, and
of its registers the addresses, zero for none, the masks, the step and the table. -/
structure Regs where
  vddmem : Bool
  volCtl : Word
  volCtlBits : Word
  volTrm : Word
  volTrmBits : Word
  stepUv : Word
  volSelCnt : Nat
  volSel : Nat → Word

/-- The registers behind the ADI bus. -/
abbrev Adi := Word → Word

/-- `ANA_REG_SET`. -/
def regSet (s : Adi) (r v m : Word) : Adi := Function.update s r ((s r &&& ~~~m) ||| (v &&& m))

def dcdcInitialValue (d : Regs) : Word := if d.vddmem then 0x10 else 0

/-- The microvolts of the trim. -/
def cal (d : Regs) (trm : Word) : Word :=
  if d.volTrm ≠ 0 then (field d.volTrmBits trm - dcdcInitialValue d) * d.stepUv else 0

/-- The voltage for the contents of the two registers. -/
def voltage (d : Regs) (ctl trm : Word) : Int :=
  (d.volSel (field d.volCtlBits ctl).toNat + cal d trm).toInt

/-- `dcdc_get_voltage`; nothing where it runs into a `BUG_ON`. -/
def getVoltage (d : Regs) (s : Adi) : Option Int :=
  if d.volCtl = 0 then some (-EINVAL)
  else if 8 < d.volSelCnt ∨ (d.volTrm ≠ 0 ∧ d.stepUv = 0) then none
  else some (voltage d (s d.volCtl) (s d.volTrm))

/-- `__match_dcdc_vol`: the selector least below the voltage, and less than 100 mV below it. -/
def matchDcdcVol (d : Regs) (vol : Word) : Option Nat :=
  ((List.range d.volSelCnt).foldl (fun (j, minDs) i =>
    let ds := (vol - d.volSel i).toInt
    if 0 ≤ ds ∧ ds < minDs then (some i, ds) else (j, minDs)) (none, 100 * 1000)).1

/-- The trim for what is missing to the voltage. -/
def trimFor (d : Regs) (minUv : Word) (i : Nat) : Word :=
  BitVec.ofInt 32 (((minUv - d.volSel i).toInt.tdiv d.stepUv.toInt).tmod 32) + dcdcInitialValue d

/-- The writes of a change: register, value and mask. -/
def writes (d : Regs) (i : Nat) (j : Word) : List (Word × Word × Word) :=
  let trm := j <<< ffs d.volTrmBits
  let ctl := BitVec.ofNat 32 i <<< ffs d.volCtlBits
  if d.volTrm = d.volCtl then [(d.volCtl, trm ||| ctl, d.volTrmBits ||| d.volCtlBits)]
  else
    (if d.volTrm ≠ 0 then [(d.volTrm, trm, d.volTrmBits)] else []) ++
      [(d.volCtl, ctl, d.volCtlBits)]

/-- The registers after each write. -/
def states (s : Adi) : List (Word × Word × Word) → List Adi
  | [] => []
  | (r, v, m) :: ws => regSet s r v m :: states (regSet s r v m) ws

/-- `__dcdc_enable_time`: the microseconds it asks of `udelay`, which takes them unsigned. -/
def enableTime (vol oldVol : Int) : Nat :=
  if oldVol < vol then
    ((BitVec.ofInt 32 ((BitVec.ofInt 32 ((vol - oldVol) * 10)).toInt.tdiv (50 * 1000))) * 2 +
      30).toNat
  else 0

/-- A call that came back: its result, the registers after each of its writes, and the
microseconds waited at the end. -/
structure Outcome where
  ret : Int
  states : List Adi
  delay : Nat

/-- The registers at the end. -/
def Outcome.last (o : Outcome) (s : Adi) : Adi := o.states.getLast?.getD s

theorem Outcome.last_of {o : Outcome} {after : List Adi} (h : o.states = after) (s : Adi) :
    o.last s = after.getLast?.getD s := by
  unfold Outcome.last
  rw [h]

/-- `dcdc_set_voltage`; nothing where it runs into a `BUG_ON`. `WARN` returns one. -/
def setVoltage (d : Regs) (s : Adi) (minUv : Word) : Option Outcome :=
  match getVoltage d s with
  | none => none
  | some oldVol =>
      if 8 < d.volSelCnt then none
      else if d.volCtl = 0 then some ⟨-EACCES, [], 0⟩
      else
        match matchDcdcVol d minUv with
        | none => some ⟨1, [], 0⟩
        | some i =>
            let j := trimFor d minUv i
            if d.stepUv = 0 ∨ d.volTrmBits >>> ffs d.volTrmBits < j then none
            else
              let after := states s (writes d i j)
              match getVoltage d (after.getLast?.getD s) with
              | none => none
              | some vol => some ⟨0, after, enableTime vol oldVol⟩

/-! ### What a change should do -/

/-- Between two writes the voltage is not below both ends. -/
def NoDip (d : Regs) (s : Adi) (o : Outcome) : Prop :=
  ∀ before ∈ getVoltage d s, ∀ after ∈ getVoltage d (o.last s), ∀ mid ∈ o.states.dropLast,
    ∀ v ∈ getVoltage d mid, min before after ≤ v

/-- Ten microseconds for every 50 mV of a rise. -/
def Waits (d : Regs) (s : Adi) (o : Outcome) : Prop :=
  ∀ before ∈ getVoltage d s, ∀ after ∈ getVoltage d (o.last s),
    before < after → (after - before) * 10 ≤ o.delay * (50 * 1000)

/-! ### The wait -/

/-- Ten times a rise is an `int`, or else it turns into a negative one, and that into a wait of more
than an hour. -/
def Covered (rise : Int) : Prop :=
  rise * 10 < 2 ^ 31 ∨ (rise * 10).bmod (2 ^ 32) ≤ -(16 * 50 * 1000)

instance (rise : Int) : Decidable (Covered rise) := inferInstanceAs (Decidable (_ ∨ _))

theorem toNat_ofInt_of_range {x : Int} (hlow : -2 ^ 31 ≤ x) (hhigh : x < 2 ^ 31) :
    ((BitVec.ofInt 32 x).toNat : Int) = if 0 ≤ x then x else x + 2 ^ 32 := by
  rw [BitVec.toNat_ofInt]
  split
  · omega
  · omega

/-- The wait covers the rise exactly when the rise is one the computation can follow. -/
theorem enableTime_enough {vol oldVol : Int} (hlt : oldVol < vol) (hbound : vol - oldVol < 2 ^ 32) :
    (vol - oldVol) * 10 ≤ enableTime vol oldVol * (50 * 1000) ↔ Covered (vol - oldVol) := by
  unfold enableTime Covered
  rw [if_pos hlt, BitVec.toInt_ofInt]
  generalize hrise : (vol - oldVol) * 10 = rise
  have hpos : 0 < rise := by omega
  have htop : rise < 10 * 2 ^ 32 := by omega
  -- What is left of ten times the rise in 32 bits.
  have hw : rise.bmod (2 ^ 32) + (2 ^ 32 : Nat) * rise.bdiv (2 ^ 32) = rise := Int.bmod_add_bdiv ..
  have hlow : -((2 ^ 32 : Nat) / 2) ≤ rise.bmod (2 ^ 32) := Int.le_bmod (by decide)
  have hhigh : rise.bmod (2 ^ 32) < ((2 ^ 32 : Nat) + 1) / 2 := Int.bmod_lt (by decide)
  generalize rise.bmod (2 ^ 32) = w at hw hlow hhigh
  generalize rise.bdiv (2 ^ 32) = k at hw
  have hq := Int.mul_tdiv_add_tmod w (50 * 1000)
  have hr := Int.tmod_lt_of_pos w (show (0 : Int) < 50 * 1000 by decide)
  have hr' := Int.lt_tmod_of_pos w (show (0 : Int) < 50 * 1000 by decide)
  have hsign : 0 ≤ w → 0 ≤ w.tmod (50 * 1000) := Int.tmod_nonneg _
  have hsign' : w ≤ 0 → w.tmod (50 * 1000) ≤ 0 := by
    intro hw0
    have hneg := Int.tmod_nonneg (50 * 1000) (show 0 ≤ -w by omega)
    rw [Int.neg_tmod] at hneg
    omega
  generalize w.tdiv (50 * 1000) = q at hq
  generalize w.tmod (50 * 1000) = r at hq hr hr' hsign hsign'
  have hdelay : ((BitVec.ofInt 32 q * 2 + 30).toNat : Int) =
      if 0 ≤ q * 2 + 30 then q * 2 + 30 else q * 2 + 30 + 2 ^ 32 := by
    rw [show BitVec.ofInt 32 q * 2 + 30 = BitVec.ofInt 32 (q * 2 + 30) by
      rw [BitVec.ofInt_add, BitVec.ofInt_mul]; rfl]
    exact toNat_ofInt_of_range (by omega) (by omega)
  rw [hdelay]
  constructor
  · intro hle
    by_contra hneither
    have hlost : 1 ≤ k := by omega
    rw [if_pos (by omega)] at hle
    omega
  · intro hcovered
    obtain hsmall | hnegative := hcovered
    · have hwhole : k = 0 := by omega
      rw [if_pos (by omega)]
      omega
    · rw [if_neg (by omega)]
      omega

/-! ### What the writes leave -/

/-- A field inside the mask written holds what was meant for it. -/
theorem field_written {bits m : Word} (h : bits &&& m = bits) (old v : Word) :
    field bits ((old &&& ~~~m) ||| (v &&& m)) = field bits v := by
  unfold field
  congr 1
  apply BitVec.eq_of_getLsbD_eq
  intro i hi
  have hbit := congrArg (fun w => w.getLsbD i) h
  simp only [BitVec.getLsbD_and] at hbit
  simp only [BitVec.getLsbD_and, BitVec.getLsbD_or, BitVec.getLsbD_not, hi, decide_true,
    Bool.true_and]
  cases hb : bits.getLsbD i <;> cases hm : m.getLsbD i <;> simp_all

theorem voltage_written_ctl {d : Regs} {m : Word} (h : d.volCtlBits &&& m = d.volCtlBits)
    (old v trm : Word) : voltage d ((old &&& ~~~m) ||| (v &&& m)) trm = voltage d v trm := by
  unfold voltage
  rw [field_written h]

theorem voltage_written_trm {d : Regs} {m : Word} (h : d.volTrmBits &&& m = d.volTrmBits)
    (ctl old v : Word) : voltage d ctl ((old &&& ~~~m) ||| (v &&& m)) = voltage d ctl v := by
  unfold voltage cal
  rw [field_written h]

/-- Without a register the trim says nothing. -/
theorem voltage_of_no_trm {d : Regs} (h : d.volTrm = 0) (ctl trm trm' : Word) :
    voltage d ctl trm = voltage d ctl trm' := by
  unfold voltage cal
  rw [if_neg (not_not.2 h), if_neg (not_not.2 h)]

/-- What `dcdc_get_voltage` reports. -/
def reported (d : Regs) (s : Adi) : Int := voltage d (s d.volCtl) (s d.volTrm)

theorem getVoltage_eq {d : Regs} (hctl : d.volCtl ≠ 0) (hcnt : d.volSelCnt ≤ 8)
    (hstep : d.stepUv ≠ 0) (s : Adi) : getVoltage d s = some (reported d s) := by
  have hgo : ¬(8 < d.volSelCnt ∨ (d.volTrm ≠ 0 ∧ d.stepUv = 0)) := by
    intro hbug
    obtain hmany | hzero := hbug
    · exact Nat.not_le.2 hmany hcnt
    · exact hstep hzero.2
  unfold getVoltage
  rw [if_neg hctl, if_neg hgo]
  rfl

/-- What the two fields are meant to hold in the end: the contents for the selector and for the
trim. -/
def target (d : Regs) (i : Nat) (j : Word) : Word × Word :=
  let trm := j <<< ffs d.volTrmBits
  let ctl := BitVec.ofNat 32 i <<< ffs d.volCtlBits
  if d.volTrm = d.volCtl then (trm ||| ctl, trm ||| ctl) else (ctl, trm)

/-- The trim has a register of its own. -/
def Separate (d : Regs) : Prop := d.volTrm ≠ 0 ∧ d.volTrm ≠ d.volCtl

instance (d : Regs) : Decidable (Separate d) := inferInstanceAs (Decidable (_ ∧ _))

theorem regSet_self (s : Adi) (r v m : Word) :
    regSet s r v m r = (s r &&& ~~~m) ||| (v &&& m) := Function.update_self ..

theorem regSet_of_ne (s : Adi) {r r' : Word} (v m : Word) (h : r' ≠ r) :
    regSet s r v m r' = s r' := Function.update_of_ne h _ _

theorem and_or_self (a b : Word) : a &&& (a ||| b) = a ∧ a &&& (b ||| a) = a := by
  constructor <;>
  · apply BitVec.eq_of_getLsbD_eq
    intro i _
    simp only [BitVec.getLsbD_and, BitVec.getLsbD_or]
    cases a.getLsbD i <;> simp

/-- A change by one write: the voltage after it. -/
theorem states_single {d : Regs} (h : ¬Separate d) (s : Adi) (i : Nat) (j : Word) :
    ∃ s', states s (writes d i j) = [s'] ∧
      reported d s' = voltage d (target d i j).1 (target d i j).2 := by
  by_cases hsame : d.volTrm = d.volCtl
  · have hwrites : writes d i j = [(d.volCtl, j <<< ffs d.volTrmBits |||
        BitVec.ofNat 32 i <<< ffs d.volCtlBits, d.volTrmBits ||| d.volCtlBits)] := if_pos hsame
    have htarget : target d i j = (j <<< ffs d.volTrmBits ||| BitVec.ofNat 32 i <<<
        ffs d.volCtlBits, j <<< ffs d.volTrmBits ||| BitVec.ofNat 32 i <<< ffs d.volCtlBits) :=
      if_pos hsame
    rw [hwrites, htarget]
    refine ⟨_, rfl, ?_⟩
    unfold reported
    rw [hsame, regSet_self, voltage_written_ctl (and_or_self _ _).2,
      voltage_written_trm (and_or_self _ _).1]
  · have hnone : d.volTrm = 0 := by
      by_contra htrm
      exact h ⟨htrm, hsame⟩
    have hwrites : writes d i j =
        [(d.volCtl, BitVec.ofNat 32 i <<< ffs d.volCtlBits, d.volCtlBits)] := by
      unfold writes
      rw [if_neg hsame, if_neg (not_not.2 hnone)]
      rfl
    have htarget : target d i j = (BitVec.ofNat 32 i <<< ffs d.volCtlBits,
        j <<< ffs d.volTrmBits) := if_neg hsame
    rw [hwrites, htarget]
    refine ⟨_, rfl, ?_⟩
    unfold reported
    rw [regSet_self, voltage_written_ctl (BitVec.and_self ..)]
    exact voltage_of_no_trm hnone ..

/-- A change by two writes: the voltage between them and after them. -/
theorem states_separate {d : Regs} (h : Separate d) (s : Adi) (i : Nat) (j : Word) :
    ∃ s₁ s₂, states s (writes d i j) = [s₁, s₂] ∧
      reported d s₁ = voltage d (s d.volCtl) (target d i j).2 ∧
      reported d s₂ = voltage d (target d i j).1 (target d i j).2 := by
  have hwrites : writes d i j = [(d.volTrm, j <<< ffs d.volTrmBits, d.volTrmBits),
      (d.volCtl, BitVec.ofNat 32 i <<< ffs d.volCtlBits, d.volCtlBits)] := by
    unfold writes
    rw [if_neg h.2, if_pos h.1]
    rfl
  have htarget : target d i j = (BitVec.ofNat 32 i <<< ffs d.volCtlBits,
      j <<< ffs d.volTrmBits) := if_neg h.2
  rw [hwrites, htarget]
  refine ⟨_, _, rfl, ?_, ?_⟩
  · unfold reported
    rw [regSet_of_ne s _ _ h.2.symm, regSet_self, voltage_written_trm (BitVec.and_self ..)]
  · unfold reported
    rw [regSet_self, voltage_written_ctl (BitVec.and_self ..), regSet_of_ne _ _ _ h.2, regSet_self,
      voltage_written_trm (BitVec.and_self ..)]

/-! ### When a change is gentle -/

/-- The new trim alone takes the voltage down. -/
def TrimLowers (d : Regs) (s : Adi) (new : Word × Word) : Prop :=
  voltage d (s d.volCtl) new.2 < voltage d (s d.volCtl) (s d.volTrm)

/-- The new selector takes the voltage up from where the trim has left it. -/
def SelectorRaises (d : Regs) (s : Adi) (new : Word × Word) : Prop :=
  voltage d (s d.volCtl) new.2 < voltage d new.1 new.2

/-- For the change the request asks for: with registers of their own the trim does not go down while
the selector goes up, and the wait covers the rise. -/
def Gentle (d : Regs) (s : Adi) (minUv : Word) : Prop :=
  d.volCtl ≠ 0 → ∀ i, matchDcdcVol d minUv = some i →
    let new := target d i (trimFor d minUv i)
    (Separate d → ¬(TrimLowers d s new ∧ SelectorRaises d s new)) ∧
      (reported d s < voltage d new.1 new.2 → Covered (voltage d new.1 new.2 - reported d s))

/-- A call that comes back has written nothing, or what was meant, and waited. -/
theorem setVoltage_cases {d : Regs} {s : Adi} {minUv : Word} {o : Outcome}
    (h : setVoltage d s minUv = some o) :
    (o.states = [] ∧ (d.volCtl = 0 ∨ matchDcdcVol d minUv = none)) ∨
      d.volCtl ≠ 0 ∧ d.volSelCnt ≤ 8 ∧ d.stepUv ≠ 0 ∧ ∃ i, matchDcdcVol d minUv = some i ∧
        o.states = states s (writes d i (trimFor d minUv i)) ∧
        o.delay = enableTime (reported d (o.last s)) (reported d s) := by
  unfold setVoltage at h
  cases hold : getVoltage d s with
  | none =>
      rw [hold] at h
      cases h
  | some oldVol =>
      simp only [hold] at h
      by_cases hmany : 8 < d.volSelCnt
      · rw [if_pos hmany] at h
        cases h
      rw [if_neg hmany] at h
      by_cases hctl : d.volCtl = 0
      · rw [if_pos hctl] at h
        rw [← Option.some.inj h]
        exact .inl ⟨rfl, .inl hctl⟩
      rw [if_neg hctl] at h
      cases hmatch : matchDcdcVol d minUv with
      | none =>
          simp only [hmatch] at h
          rw [← Option.some.inj h]
          exact .inl ⟨rfl, .inr rfl⟩
      | some i =>
          simp only [hmatch] at h
          split at h
          · cases h
          rename_i hgo
          have hcnt : d.volSelCnt ≤ 8 := Nat.not_lt.1 hmany
          have hstep : d.stepUv ≠ 0 := fun hzero => hgo (.inl hzero)
          rw [getVoltage_eq hctl hcnt hstep] at hold h
          simp only at h
          rw [← Option.some.inj h, ← Option.some.inj hold]
          exact .inr ⟨hctl, hcnt, hstep, i, rfl, rfl, rfl⟩

theorem waits_iff {d : Regs} {s : Adi} {o : Outcome} (hctl : d.volCtl ≠ 0) (hcnt : d.volSelCnt ≤ 8)
    (hstep : d.stepUv ≠ 0)
    (hdelay : o.delay = enableTime (reported d (o.last s)) (reported d s)) :
    Waits d s o ↔ (reported d s < reported d (o.last s) →
      Covered (reported d (o.last s) - reported d s)) := by
  unfold Waits
  rw [getVoltage_eq hctl hcnt hstep, getVoltage_eq hctl hcnt hstep, hdelay]
  simp only [Option.mem_def, Option.some.injEq, forall_eq']
  have hlow : -2 ^ 31 ≤ reported d s := BitVec.le_toInt _
  have hhigh : reported d (o.last s) < 2 ^ 31 := BitVec.toInt_lt
  constructor
  · intro hwaits hrise
    exact (enableTime_enough hrise (by omega)).1 (hwaits hrise)
  · intro hcovered hrise
    exact (enableTime_enough hrise (by omega)).2 (hcovered hrise)

/-- With one write there is nothing between. -/
theorem noDip_single {d : Regs} {s s' : Adi} {o : Outcome} (h : o.states = [s']) : NoDip d s o := by
  intro before _ after _ mid hmid
  rw [h] at hmid
  cases hmid

theorem noDip_separate {d : Regs} {s s₁ s₂ : Adi} {o : Outcome} (hctl : d.volCtl ≠ 0)
    (hcnt : d.volSelCnt ≤ 8) (hstep : d.stepUv ≠ 0) (h : o.states = [s₁, s₂]) :
    NoDip d s o ↔ ¬(reported d s₁ < reported d s ∧ reported d s₁ < reported d s₂) := by
  have hlast : o.last s = s₂ := Outcome.last_of h s
  unfold NoDip
  rw [h, hlast, getVoltage_eq hctl hcnt hstep, getVoltage_eq hctl hcnt hstep]
  simp only [Option.mem_def, Option.some.injEq, forall_eq', List.dropLast_cons_cons,
    List.dropLast_singleton, List.mem_singleton, forall_eq, getVoltage_eq hctl hcnt hstep]
  rw [min_le_iff, not_and_or, not_lt, not_lt]

/-! ### In microvolts -/

/-- The microvolts of the trim before they are cut to an `int`. -/
def calUv (d : Regs) (trm : Word) : Int :=
  if d.volTrm ≠ 0 then
    ((field d.volTrmBits trm).toNat - (dcdcInitialValue d).toNat) * d.stepUv.toInt
  else 0

def selUv (d : Regs) (ctl : Word) : Int := (d.volSel (field d.volCtlBits ctl).toNat).toNat

/-- Every voltage there can be is an `int`. -/
def Fits (d : Regs) : Prop :=
  ∀ ctl trm, -2 ^ 31 ≤ selUv d ctl + calUv d trm ∧ selUv d ctl + calUv d trm < 2 ^ 31

theorem voltage_eq {d : Regs} (h : Fits d) (ctl trm : Word) :
    voltage d ctl trm = selUv d ctl + calUv d trm := by
  obtain ⟨hlow, hhigh⟩ := h ctl trm
  have hcal : cal d trm = BitVec.ofInt 32 (calUv d trm) := by
    unfold cal calUv
    split
    · rw [BitVec.ofInt_mul, BitVec.ofInt_toInt, Int.sub_eq_add_neg, BitVec.ofInt_add,
        BitVec.ofInt_neg, BitVec.ofInt_natCast, BitVec.ofInt_natCast, BitVec.ofNat_toNat,
        BitVec.ofNat_toNat, BitVec.setWidth_eq, BitVec.setWidth_eq, ← BitVec.sub_eq_add_neg]
    · rfl
  have hsel : d.volSel (field d.volCtlBits ctl).toNat = BitVec.ofInt 32 (selUv d ctl) := by
    unfold selUv
    rw [BitVec.ofInt_natCast, BitVec.ofNat_toNat, BitVec.setWidth_eq]
  unfold voltage
  rw [hcal, hsel, ← BitVec.ofInt_add, BitVec.toInt_ofInt, Int.bmod_eq_of_le]
  · omega
  · omega

theorem trimLowers_iff {d : Regs} (h : Fits d) (s : Adi) (new : Word × Word) :
    TrimLowers d s new ↔ calUv d new.2 < calUv d (s d.volTrm) := by
  unfold TrimLowers
  rw [voltage_eq h, voltage_eq h]
  exact add_lt_add_iff_left _

theorem selectorRaises_iff {d : Regs} (h : Fits d) (s : Adi) (new : Word × Word) :
    SelectorRaises d s new ↔ selUv d (s d.volCtl) < selUv d new.1 := by
  unfold SelectorRaises
  rw [voltage_eq h, voltage_eq h]
  exact add_lt_add_iff_right _

/-- A change stays above its lower end and waits for its rise exactly when it is gentle; and where
every voltage is an `int`, the trim takes it down when its own microvolts fall, and the selector up
when its entry of the table is higher. -/
theorem setVoltage_gentle_iff {d : Regs} {s : Adi} {minUv : Word} {o : Outcome}
    (h : setVoltage d s minUv = some o) :
    (NoDip d s o ∧ Waits d s o ↔ Gentle d s minUv) ∧
      (Fits d → ∀ new, (TrimLowers d s new ↔ calUv d new.2 < calUv d (s d.volTrm)) ∧
        (SelectorRaises d s new ↔ selUv d (s d.volCtl) < selUv d new.1)) := by
  refine ⟨?_, fun hfits new => ⟨trimLowers_iff hfits s new, selectorRaises_iff hfits s new⟩⟩
  obtain ⟨hnone, hwhy⟩ | ⟨hctl, hcnt, hstep, i, hmatch, hstates, hdelay⟩ := setVoltage_cases h
  · -- Nothing is written, and the voltage is what it was.
    have hlast : o.last s = s := Outcome.last_of hnone s
    constructor
    · intro _ hctl i hmatch
      obtain hzero | hmiss := hwhy
      · exact absurd hzero hctl
      · rw [hmiss] at hmatch
        cases hmatch
    · intro _
      constructor
      · intro before _ after _ mid hmid
        rw [hnone] at hmid
        cases hmid
      · intro before hbefore after hafter hrise
        rw [hlast] at hafter
        rw [Option.mem_unique hbefore hafter] at hrise
        exact absurd hrise (lt_irrefl _)
  · rw [waits_iff hctl hcnt hstep hdelay]
    have hgentle : Gentle d s minUv ↔
        (Separate d → ¬(TrimLowers d s (target d i (trimFor d minUv i)) ∧
          SelectorRaises d s (target d i (trimFor d minUv i)))) ∧
        (reported d s < voltage d (target d i (trimFor d minUv i)).1
            (target d i (trimFor d minUv i)).2 →
          Covered (voltage d (target d i (trimFor d minUv i)).1
            (target d i (trimFor d minUv i)).2 - reported d s)) := by
      constructor
      · intro hall
        exact hall hctl i hmatch
      · intro hthis _ i' hmatch'
        rw [Option.some.inj (hmatch'.symm.trans hmatch)]
        exact hthis
    rw [hgentle]
    by_cases hsep : Separate d
    · obtain ⟨s₁, s₂, htwo, hmid, hend⟩ := states_separate hsep s i (trimFor d minUv i)
      rw [htwo] at hstates
      have hlast : o.last s = s₂ := Outcome.last_of hstates s
      rw [noDip_separate hctl hcnt hstep hstates, hlast, hmid, hend, forall_prop_of_true hsep]
      rfl
    · obtain ⟨s', hone, hend⟩ := states_single hsep s i (trimFor d minUv i)
      rw [hone] at hstates
      have hlast : o.last s = s' := Outcome.last_of hstates s
      have hdip : NoDip d s o := noDip_single hstates
      rw [hlast, hend]
      constructor
      · intro hboth
        exact ⟨fun hno => absurd hno hsep, hboth.2⟩
      · intro hboth
        exact ⟨hdip, hboth.2⟩

/-- `vddarm` as the device tree has it: the selector in bits 6 to 8 of one register, the trim in the
low bits of another. -/
def vddarm : Regs where
  vddmem := false
  volCtl := 0x40038948
  volCtlBits := 0x1c0
  volTrm := 0x40038964
  volTrmBits := 0x1f
  stepUv := 3125
  volSelCnt := 8
  volSel := fun i =>
    [1100000, 700000, 800000, 900000, 1000000, 650000, 1200000, 1300000].getD i 0

/-- The registers of `vddarm` for a selector and a trim. -/
def vddarmAt (i j : Word) : Adi := fun r => if r = 0x40038948 then i <<< 6 else j

/-- From 900 mV to 1 V. -/
theorem setVoltage_gentle_iff_vddarm : ∃ o, setVoltage vddarm (vddarmAt 3 0) 1000000 = some o ∧
    NoDip vddarm (vddarmAt 3 0) o ∧ Waits vddarm (vddarmAt 3 0) o := by
  obtain ⟨o, ho⟩ := Option.isSome_iff_exists.1
    (show (setVoltage vddarm (vddarmAt 3 0) 1000000).isSome by decide)
  refine ⟨o, ho, (setVoltage_gentle_iff ho).1.2 ?_⟩
  intro _ i hmatch
  have hfour : i = 4 := Option.some.inj (hmatch.symm.trans (by decide))
  rw [hfour]
  refine ⟨fun _ hdown => absurd hdown.1 ?_, fun _ => ?_⟩
  · unfold TrimLowers
    decide
  · decide

/-- From 975 mV to 1 V by way of 900 mV. -/
theorem setVoltage_dips : ¬∀ d s minUv o, setVoltage d s minUv = some o →
    NoDip d s o ∧ Waits d s o := by
  intro hall
  obtain ⟨o, ho⟩ := Option.isSome_iff_exists.1
    (show (setVoltage vddarm (vddarmAt 3 24) 1000000).isSome by decide)
  obtain ⟨hdip, _⟩ := hall _ _ _ o ho
  have hlast : ((setVoltage vddarm (vddarmAt 3 24) 1000000).map fun o =>
      getVoltage vddarm (o.last (vddarmAt 3 24))) = some (some 1000000) := by decide
  have hmid : ((setVoltage vddarm (vddarmAt 3 24) 1000000).map fun o =>
      o.states.dropLast.any fun mid => getVoltage vddarm mid = some 900000) = some true := by
    decide
  rw [ho] at hlast hmid
  obtain ⟨mid, hmem, hvolt⟩ := List.any_eq_true.1 (Option.some.inj hmid)
  have hmin := hdip 975000 (by decide) 1000000 (Option.some.inj hlast) mid hmem 900000
    (of_decide_eq_true hvolt)
  exact absurd hmin (by decide)

end LineageA1000.Regulator
