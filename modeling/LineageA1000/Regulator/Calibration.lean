import LineageA1000.Regulator.Dcdc
import LineageA1000.Lib.Bytes
import Mathlib.Data.Fin.VecNotation
import Mathlib.Data.List.GetD
import Mathlib.Tactic.IntervalCases

/-!
# The calibration offset of a rail

At registration the driver takes the voltage that a rail with a trim is programmed to, and subtracts
the voltage that it ought to have. That one is in the table u-boot leaves, in millivolts, or else
it is the default of the device tree, in microvolts; but by then `reconfig_regulator` has replaced
the defaults of five rails, and the tables of two, by numbers that are millivolts.
-/

namespace LineageA1000.Regulator

open Bytes

/-! ### Names -/

/-- `"vddcore"`. -/
def nameVddcore : Bytes := [0x76, 0x64, 0x64, 0x63, 0x6F, 0x72, 0x65]

/-- `"vddarm"`. -/
def nameVddarm : Bytes := [0x76, 0x64, 0x64, 0x61, 0x72, 0x6D]

/-- `"vddmem"`. -/
def nameVddmem : Bytes := [0x76, 0x64, 0x64, 0x6D, 0x65, 0x6D]

/-- `"vdd25"`. -/
def nameVdd25 : Bytes := [0x76, 0x64, 0x64, 0x32, 0x35]

/-- `"vddwrf"`. -/
def nameVddwrf : Bytes := [0x76, 0x64, 0x64, 0x77, 0x72, 0x66]

/-- `"vddrf1"`. -/
def nameVddrf1 : Bytes := [0x76, 0x64, 0x64, 0x72, 0x66, 0x31]

/-- `"volpara_begin"`. -/
def nameVolparaBegin : Bytes :=
  [0x76, 0x6F, 0x6C, 0x70, 0x61, 0x72, 0x61, 0x5F, 0x62, 0x65, 0x67, 0x69, 0x6E]

/-- `"volpara_end"`. -/
def nameVolparaEnd : Bytes := [0x76, 0x6F, 0x6C, 0x70, 0x61, 0x72, 0x61, 0x5F, 0x65, 0x6E, 0x64]

/-! ### What the device tree gives -/

/-- A node of the device tree as it is parsed: its name, whether it is a `dcdc`, its default, and
its registers and table. -/
structure DeviceNode where
  name : Bytes
  dcdc : Bool
  defaultMicrovolt : Option Word
  volCtl : Word
  volCtlBits : Word
  volTrm : Word
  volTrmBits : Word
  stepUv : Word
  volSelCnt : Nat
  volSel : Nat → Word

/-- `struct sci_regulator_desc`, with the registers that the operations read. -/
structure Desc where
  name : Bytes
  dcdc : Bool
  volDef : Word
  regs : Regs

/-- `sci_regulator_parse_dt`; a default that is not given is zero. -/
def sciRegulatorParseDt (np : DeviceNode) : Desc where
  name := np.name
  dcdc := np.dcdc
  volDef := np.defaultMicrovolt.getD 0
  regs :=
    { vddmem := np.name = nameVddmem
      volCtl := np.volCtl
      volCtlBits := np.volCtlBits
      volTrm := np.volTrm
      volTrmBits := np.volTrmBits
      stepUv := np.stepUv
      volSelCnt := np.volSelCnt
      volSel := np.volSel }

/-! ### What the bond options change -/

/-- The addresses of the analog registers. -/
structure AnaRegs where
  mpMiscCtrl : Word
  dcdcCoreAdi : Word
  dcdcArmAdi : Word
  ldoVCtrl0 : Word

/-- A control register, its bits, and a default. -/
def Desc.moveCtl (d : Desc) (volDef volCtl volCtlBits : Word) : Desc :=
  { d with volDef := volDef, regs := { d.regs with volCtl := volCtl, volCtlBits := volCtlBits } }

/-- The first four entries of the table. -/
def Desc.setSel (d : Desc) (sel : Fin 4 → Word) : Desc :=
  { d with regs := { d.regs with
      volSel := fun i => if h : i < 4 then sel ⟨i, h⟩ else d.regs.volSel i } }

def bondopt6 (a : AnaRegs) (anaStatus : BitVec 16) (d : Desc) : Desc :=
  if anaStatus.getLsbD 6 then
    if d.name = nameVddcore then d.moveCtl 900 a.mpMiscCtrl 0x38
    else if d.name = nameVddarm then d.moveCtl 900 a.mpMiscCtrl 0x1C0
    else if d.name = nameVdd25 then
      (d.moveCtl 1800 a.mpMiscCtrl 0x600).setSel ![2500, 2750, 1800, 1900]
    else d
  else
    if d.name = nameVddcore then d.moveCtl 1100 a.dcdcCoreAdi 0xE0
    else if d.name = nameVddarm then d.moveCtl 1100 a.dcdcArmAdi 0xE0
    else if d.name = nameVdd25 then
      (d.moveCtl 2500 a.ldoVCtrl0 0x30).setSel ![2500, 2750, 3000, 2900]
    else d

def bondopt4 (a : AnaRegs) (anaStatus : BitVec 16) (d : Desc) : Desc :=
  if anaStatus.getLsbD 4 then
    if d.name = nameVddwrf then { d with volDef := 2800 }.setSel ![2600, 2700, 2800, 2900]
    else if d.name = nameVddrf1 then d.moveCtl 2850 a.ldoVCtrl0 0x300
    else d
  else
    if d.name = nameVddwrf then { d with volDef := 1500 }.setSel ![1300, 1400, 1500, 1600]
    else if d.name = nameVddrf1 then d.moveCtl 1200 a.mpMiscCtrl 0x1800
    else d

def reconfigRegulator (a : AnaRegs) (anaStatus : BitVec 16) (d : Desc) : Desc :=
  bondopt4 a anaStatus (bondopt6 a anaStatus d)

/-! ### What u-boot leaves -/

/-- `vol_para_t`: millivolts and a name. -/
structure VolPara where
  idealVol : BitVec 16
  name : Bytes
  deriving DecidableEq

/-- The table in the second internal memory; whoever reads it stops at its end. -/
structure VolParaTable where
  first : VolPara
  entries : List VolPara
  terminated : ∃ e ∈ first :: entries, e.name = nameVolparaEnd

/-- The search from behind an entry on. -/
def searchVolPara (conId : Bytes) (entry : VolPara) : List VolPara → BitVec 16
  | [] => 0
  | next :: rest =>
      if entry.name = nameVolparaEnd then 0
      else if next.name = conId then next.idealVol
      else searchVolPara conId next rest

/-- `regulator_default_get`; there is no table where the pointer to it is not into the memory. -/
def regulatorDefaultGet (table : Option VolParaTable) (conId : Bytes) : BitVec 16 :=
  match table with
  | none => 0
  | some t =>
      if t.first.name ≠ nameVolparaBegin ∨ t.first.idealVol ≠ 0xFAED then 0
      else searchVolPara conId t.first t.entries

/-! ### The offset -/

/-- `ldo_get_voltage`; nothing where it runs into a `BUG_ON`. -/
def ldoGetVoltage (d : Regs) (s : Adi) : Option Int :=
  if d.volCtl = 0 then some (-EACCES)
  else if d.volSelCnt ≠ 4 then none
  else some (d.volSel (field d.volCtlBits (s d.volCtl)).toNat).toInt

/-- `ops->get_voltage`. -/
def Desc.getVoltage (d : Desc) (s : Adi) : Option Int :=
  if d.dcdc then Regulator.getVoltage d.regs s else ldoGetVoltage d.regs s

/-- `to_vol`. -/
def toVol (table : Option VolParaTable) (d : Desc) : Word :=
  let toVol := (regulatorDefaultGet table d.name).setWidth 32 * 1000
  if toVol = 0 then d.volDef else toVol

/-- `__init_trimming` with the `uV_offset` before and after it; nothing where `get_voltage` runs
into a `BUG_ON`. -/
def initTrimming (table : Option VolParaTable) (s : Adi) (d : Desc) (uvOffset : Word) :
    Option Word :=
  if d.regs.volTrm = 0 then some uvOffset
  else if toVol table d = 0 then some uvOffset
  else
    match d.getVoltage s with
    | none => none
    | some ctlVol =>
        let uvOffset := BitVec.ofInt 32 ctlVol - toVol table d
        some (if d.name = nameVddarm ∧ uvOffset.slt 0 then 0 else uvOffset)

/-- `sci_regulator_register_dt` for one node, whose `uV_offset` starts out as zero. -/
def registerDt (a : AnaRegs) (anaStatus : BitVec 16) (table : Option VolParaTable) (s : Adi)
    (np : DeviceNode) : Option Word :=
  initTrimming table s (reconfigRegulator a anaStatus (sciRegulatorParseDt np)) 0

/-! ### What has to hold -/

/-- The rails whose default the bond options replace. -/
def overridesDefault (name : Bytes) : Prop :=
  name = nameVddcore ∨ name = nameVddarm ∨ name = nameVdd25 ∨ name = nameVddwrf ∨
    name = nameVddrf1

/-- The rails whose table they replace. -/
def overridesTable (name : Bytes) : Prop := name = nameVdd25 ∨ name = nameVddwrf

instance (name : Bytes) : Decidable (overridesDefault name) :=
  inferInstanceAs (Decidable (_ ∨ _))

instance (name : Bytes) : Decidable (overridesTable name) := inferInstanceAs (Decidable (_ ∨ _))

/-- The index that the control register holds. -/
def Desc.selected (d : Desc) (s : Adi) : Nat :=
  (field d.regs.volCtlBits (s d.regs.volCtl)).toNat

/-- The number that `get_voltage` puts together. -/
def Desc.number (d : Desc) (ctl trm : Word) : Int :=
  selUv d.regs ctl + if d.dcdc then calUv d.regs trm else 0

/-- The millivolts of the entry that is selected, if that is one of a table which was replaced. -/
def Desc.selMillivolts (d : Desc) (s : Adi) : Int :=
  if overridesTable d.name ∧ d.selected s < 4 then (d.regs.volSel (d.selected s)).toNat else 0

/-- The millivolts of the default, if that was replaced and is the one that counts. -/
def defMillivolts (table : Option VolParaTable) (d : Desc) : Int :=
  if overridesDefault d.name ∧ regulatorDefaultGet table d.name = 0 then d.volDef.toInt else 0

/-- What the rail is programmed to, in microvolts. -/
def Desc.programmedUv (d : Desc) (s : Adi) : Int :=
  (if overridesTable d.name ∧ d.selected s < 4 then
      (d.regs.volSel (d.selected s)).toNat * 1000
    else (d.regs.volSel (d.selected s)).toNat) +
    if d.dcdc then calUv d.regs (s d.regs.volTrm) else 0

/-- What the rail ought to have, in microvolts: u-boot's word, or else the default, which is the one
of the bond options where they have one. -/
def idealUv (table : Option VolParaTable) (d : Desc) : Int :=
  if regulatorDefaultGet table d.name ≠ 0 then (regulatorDefaultGet table d.name).toNat * 1000
  else if overridesDefault d.name then d.volDef.toInt * 1000
  else d.volDef.toInt

/-- A rail with a trim: it has its registers, runs into no `BUG_ON`, and its voltages and its
default are not negative. -/
structure Trimmed (d : Desc) : Prop where
  trm : d.regs.volTrm ≠ 0
  ctl : d.regs.volCtl ≠ 0
  runs : if d.dcdc then d.regs.volSelCnt ≤ 8 ∧ d.regs.stepUv ≠ 0 else d.regs.volSelCnt = 4
  number : ∀ ctl trm, 0 ≤ d.number ctl trm ∧ d.number ctl trm < 2 ^ 31
  volDef : 0 ≤ d.volDef.toInt

/-- The offset of a rail that ought to have some voltage is what it is programmed to less what it
ought to have, in microvolts, and for `vddarm` no less than zero. -/
def CalibratesExactly (a : AnaRegs) (anaStatus : BitVec 16) (table : Option VolParaTable) (s : Adi)
    (np : DeviceNode) : Prop :=
  let d := reconfigRegulator a anaStatus (sciRegulatorParseDt np)
  ∃ uvOffset, registerDt a anaStatus table s np = some uvOffset ∧
    (idealUv table d ≠ 0 → uvOffset.toInt =
      if d.name = nameVddarm then max (d.programmedUv s - idealUv table d) 0
      else d.programmedUv s - idealUv table d)

/-- The two voltages are off by the same: neither comes from a number of millivolts, or both do and
from the same one. For `vddarm` it is enough that the programmed voltage is not above the number of
the default. -/
def UnitsAgree (table : Option VolParaTable) (s : Adi) (d : Desc) : Prop :=
  idealUv table d ≠ 0 →
    if d.name = nameVddarm then
      defMillivolts table d = 0 ∨ d.number (s d.regs.volCtl) (s d.regs.volTrm) ≤ d.volDef.toInt
    else d.selMillivolts s = defMillivolts table d

/-! ### The bond options -/

theorem bondopt6_name (a : AnaRegs) (anaStatus : BitVec 16) (d : Desc) :
    (bondopt6 a anaStatus d).name = d.name := by
  rw [bondopt6]
  split_ifs <;> rfl

theorem bondopt6_volDef (a : AnaRegs) (anaStatus : BitVec 16) (d : Desc) :
    (bondopt6 a anaStatus d).volDef =
      if d.name = nameVddcore ∨ d.name = nameVddarm then
        if anaStatus.getLsbD 6 then 900 else 1100
      else if d.name = nameVdd25 then if anaStatus.getLsbD 6 then 1800 else 2500
      else d.volDef := by
  rw [bondopt6]
  split_ifs <;> first | rfl | tauto

theorem bondopt4_name (a : AnaRegs) (anaStatus : BitVec 16) (d : Desc) :
    (bondopt4 a anaStatus d).name = d.name := by
  rw [bondopt4]
  split_ifs <;> rfl

theorem bondopt4_volDef (a : AnaRegs) (anaStatus : BitVec 16) (d : Desc) :
    (bondopt4 a anaStatus d).volDef =
      if d.name = nameVddwrf then if anaStatus.getLsbD 4 then 2800 else 1500
      else if d.name = nameVddrf1 then if anaStatus.getLsbD 4 then 2850 else 1200
      else d.volDef := by
  rw [bondopt4]
  split_ifs <;> rfl

theorem reconfigRegulator_name (a : AnaRegs) (anaStatus : BitVec 16) (d : Desc) :
    (reconfigRegulator a anaStatus d).name = d.name := by
  rw [reconfigRegulator, bondopt4_name, bondopt6_name]

/-- The defaults of the bond options are positive. -/
theorem volDef_pos_of_overrides {a : AnaRegs} {anaStatus : BitVec 16} {d : Desc}
    (h : overridesDefault d.name) : 0 < (reconfigRegulator a anaStatus d).volDef.toInt := by
  rw [overridesDefault] at h
  rw [reconfigRegulator, bondopt4_volDef, bondopt6_volDef, bondopt6_name]
  split_ifs <;> first | decide | tauto

/-! ### The two voltages -/

variable {d : Desc} {s : Adi} {table : Option VolParaTable}

/-- `get_voltage` of a rail with a trim. -/
theorem Trimmed.getVoltage_eq (h : Trimmed d) (s : Adi) :
    d.getVoltage s = some (d.number (s d.regs.volCtl) (s d.regs.volTrm)) := by
  have hruns := h.runs
  have hnumber := h.number
  simp only [Desc.number] at hnumber ⊢
  rw [Desc.getVoltage]
  cases hdcdc : d.dcdc with
  | true =>
      rw [hdcdc] at hruns
      simp only [hdcdc, if_true] at hruns hnumber ⊢
      have hfits : Fits d.regs := by
        intro ctl trm
        have := hnumber ctl trm
        omega
      rw [Regulator.getVoltage_eq h.ctl hruns.1 hruns.2, reported, voltage_eq hfits]
  | false =>
      rw [hdcdc] at hruns
      simp only [hdcdc, Bool.false_eq_true, if_false, add_zero] at hruns hnumber ⊢
      obtain ⟨-, hhigh⟩ := hnumber (s d.regs.volCtl) 0
      rw [ldoGetVoltage, if_neg h.ctl, if_neg (not_not.2 hruns)]
      rw [selUv] at hhigh ⊢
      congr 1
      rw [BitVec.toInt_eq_toNat_cond]
      omega

theorem programmedUv_eq (d : Desc) (s : Adi) :
    d.programmedUv s =
      d.number (s d.regs.volCtl) (s d.regs.volTrm) + 999 * d.selMillivolts s := by
  rw [Desc.programmedUv, Desc.number, Desc.selMillivolts, selUv, Desc.selected]
  split
  · push_cast
    ring
  · ring

/-- u-boot's millivolts are an `int` of microvolts. -/
theorem toNat_mul_thousand (mv : BitVec 16) :
    (mv.setWidth 32 * 1000 : Word).toNat = mv.toNat * 1000 := by
  have hlt := mv.isLt
  rw [BitVec.toNat_mul, BitVec.toNat_setWidth, show (1000 : Word).toNat = 1000 from rfl]
  omega

theorem toVol_of_none (hnone : regulatorDefaultGet table d.name = 0) :
    toVol table d = d.volDef := by
  rw [toVol, hnone]
  rfl

/-- The ideal voltage that the driver takes is off by the millivolts of a default that counts. -/
theorem idealUv_eq (hdef : 0 ≤ d.volDef.toInt) :
    idealUv table d = (toVol table d).toInt + 999 * defMillivolts table d ∧
      0 ≤ (toVol table d).toInt := by
  by_cases hnone : regulatorDefaultGet table d.name = 0
  · rw [idealUv, defMillivolts, toVol_of_none hnone, if_neg (not_not.2 hnone)]
    simp only [hnone, and_true]
    split
    · omega
    · omega
  · have hvalue := toNat_mul_thousand (regulatorDefaultGet table d.name)
    have hlt := (regulatorDefaultGet table d.name).isLt
    have hto : toVol table d = (regulatorDefaultGet table d.name).setWidth 32 * 1000 := by
      rw [toVol]
      apply if_neg
      intro hzero
      rw [hzero] at hvalue
      apply hnone
      apply BitVec.eq_of_toNat_eq
      have hzero' : (0 : Word).toNat = 0 := rfl
      have hzero'' : (0 : BitVec 16).toNat = 0 := rfl
      omega
    have hint : ((regulatorDefaultGet table d.name).setWidth 32 * 1000 : Word).toInt =
        (regulatorDefaultGet table d.name).toNat * 1000 := by
      rw [BitVec.toInt_eq_toNat_cond, hvalue]
      omega
    rw [idealUv, defMillivolts, hto, if_pos hnone, if_neg fun h => hnone h.2, hint]
    omega

/-- A default that counts is there. -/
theorem toVol_ne_zero (hpos : overridesDefault d.name → 0 < d.volDef.toInt)
    (hdef : 0 ≤ d.volDef.toInt) (hideal : idealUv table d ≠ 0) : toVol table d ≠ 0 := by
  intro hzero
  have hvalue := (@idealUv_eq d table hdef).1
  rw [hzero, show (0 : Word).toInt = 0 from rfl] at hvalue
  apply hideal
  rw [hvalue, defMillivolts]
  split
  · rename_i hcounts
    have hdefault := hpos hcounts.1
    rw [← toVol_of_none hcounts.2, hzero] at hdefault
    exact absurd hdefault (by decide)
  · rfl

/-- The offset that is stored where there is an ideal voltage. -/
theorem Trimmed.initTrimming_eq (h : Trimmed d) (hto : toVol table d ≠ 0) (s : Adi)
    (uvOffset : Word) :
    ∃ off, initTrimming table s d uvOffset = some off ∧ off.toInt =
      if d.name = nameVddarm then
        max (d.number (s d.regs.volCtl) (s d.regs.volTrm) - (toVol table d).toInt) 0
      else d.number (s d.regs.volCtl) (s d.regs.volTrm) - (toVol table d).toInt := by
  obtain ⟨hlow, hhigh⟩ := h.number (s d.regs.volCtl) (s d.regs.volTrm)
  have htoLow := (@idealUv_eq d table h.volDef).2
  have htoHigh := BitVec.toInt_lt (x := toVol table d)
  have hdiff : (BitVec.ofInt 32 (d.number (s d.regs.volCtl) (s d.regs.volTrm)) -
      toVol table d).toInt =
        d.number (s d.regs.volCtl) (s d.regs.volTrm) - (toVol table d).toInt := by
    have hnumber : (BitVec.ofInt 32 (d.number (s d.regs.volCtl) (s d.regs.volTrm))).toInt =
        d.number (s d.regs.volCtl) (s d.regs.volTrm) := by
      rw [BitVec.toInt_ofInt]
      apply Int.bmod_eq_of_le <;> omega
    rw [BitVec.toInt_sub, hnumber]
    apply Int.bmod_eq_of_le <;> omega
  have hslt : (BitVec.ofInt 32 (d.number (s d.regs.volCtl) (s d.regs.volTrm)) -
      toVol table d).slt 0 ↔
        d.number (s d.regs.volCtl) (s d.regs.volTrm) - (toVol table d).toInt < 0 := by
    rw [BitVec.slt_iff_toInt_lt, hdiff]
    rfl
  refine ⟨_, by rw [initTrimming, if_neg h.trm, if_neg hto, h.getVoltage_eq], ?_⟩
  by_cases harm : d.name = nameVddarm
  · rw [if_pos harm]
    split
    · rename_i hneg
      have hneg' := hslt.1 hneg.2
      rw [show (0 : Word).toInt = 0 from rfl]
      omega
    · rename_i hnonneg
      have hnonneg' := mt hslt.2 fun hneg => hnonneg ⟨harm, hneg⟩
      rw [hdiff]
      omega
  · rw [if_neg harm, if_neg fun hneg => harm hneg.1, hdiff]

theorem selMillivolts_vddarm (h : d.name = nameVddarm) (s : Adi) : d.selMillivolts s = 0 := by
  rw [Desc.selMillivolts, h]
  apply if_neg
  intro hover
  exact absurd hover.1 (by decide)

theorem defMillivolts_nonneg (hdef : 0 ≤ d.volDef.toInt) : 0 ≤ defMillivolts table d := by
  rw [defMillivolts]
  split
  · exact hdef
  · exact le_rfl

/-- The offset of a rail with a trim is in microvolts exactly when the units agree. -/
theorem calibratesExactly_iff (a : AnaRegs) (anaStatus : BitVec 16) (table : Option VolParaTable)
    (s : Adi) (np : DeviceNode)
    (h : Trimmed (reconfigRegulator a anaStatus (sciRegulatorParseDt np))) :
    CalibratesExactly a anaStatus table s np ↔
      UnitsAgree table s (reconfigRegulator a anaStatus (sciRegulatorParseDt np)) := by
  have hpos : overridesDefault (reconfigRegulator a anaStatus (sciRegulatorParseDt np)).name →
      0 < (reconfigRegulator a anaStatus (sciRegulatorParseDt np)).volDef.toInt := by
    rw [reconfigRegulator_name]
    exact volDef_pos_of_overrides
  rw [CalibratesExactly, UnitsAgree, registerDt]
  generalize reconfigRegulator a anaStatus (sciRegulatorParseDt np) = d at h hpos
  by_cases hideal : idealUv table d = 0
  · apply iff_of_true
    · by_cases hto : toVol table d = 0
      · refine ⟨0, ?_, fun hne => absurd hideal hne⟩
        rw [initTrimming, if_neg h.trm, if_pos hto]
      · obtain ⟨off, hoff, -⟩ := h.initTrimming_eq hto s 0
        exact ⟨off, hoff, fun hne => absurd hideal hne⟩
    · exact fun hne => absurd hideal hne
  · have hto := toVol_ne_zero hpos h.volDef hideal
    obtain ⟨off, hoff, hvalue⟩ := h.initTrimming_eq hto s 0
    have hnonneg := @defMillivolts_nonneg d table h.volDef
    obtain ⟨hidealValue, -⟩ := @idealUv_eq d table h.volDef
    simp only [hoff, Option.some.injEq, exists_eq_left', forall_prop_of_true hideal, hvalue,
      programmedUv_eq]
    rw [hidealValue]
    by_cases harm : d.name = nameVddarm
    · rw [if_pos harm, if_pos harm, if_pos harm, selMillivolts_vddarm harm]
      by_cases hnone : regulatorDefaultGet table d.name = 0
      · rw [toVol_of_none hnone]
        omega
      · have hzero : defMillivolts table d = 0 := if_neg fun hcounts => hnone hcounts.2
        rw [hzero]
        omega
    · rw [if_neg harm, if_neg harm, if_neg harm]
      omega

/-! ### Two rails -/

/-- A node like that of `vddarm`, under some name. -/
def dcdcNode (name : Bytes) : DeviceNode where
  name := name
  dcdc := true
  defaultMicrovolt := some 1100000
  volCtl := 0x40038948
  volCtlBits := 0x1c0
  volTrm := 0x40038964
  volTrmBits := 0x1f
  stepUv := 3125
  volSelCnt := 8
  volSel := vddarm.volSel

def anaRegs : AnaRegs := ⟨0x40038948, 0x40038950, 0x40038954, 0x40038958⟩

/-- u-boot says 1.1 V for `vddcore`. -/
def tableVddcore : VolParaTable where
  first := ⟨0xFAED, nameVolparaBegin⟩
  entries := [⟨1100, nameVddcore⟩, ⟨0, nameVolparaEnd⟩]
  terminated := ⟨⟨0, nameVolparaEnd⟩, by decide, rfl⟩

theorem volSel_vddarm_le (i : Nat) : (vddarm.volSel i).toNat ≤ 1300000 := by
  by_cases hi : i < 8
  · interval_cases i <;> decide
  · have hnone : vddarm.volSel i = 0 := List.getD_eq_default _ _ (Nat.not_lt.1 hi)
    rw [hnone]
    decide

theorem field_le (reg : Word) : (field 0x1f reg).toNat ≤ 31 := by
  have hffs : ffs 0x1f = 0 := by decide
  rw [field, hffs, BitVec.ushiftRight_zero, BitVec.toNat_and]
  exact Nat.and_le_right

/-- `vddcore` as it is registered without bond options. -/
def vddcoreDesc : Desc := reconfigRegulator anaRegs 0 (sciRegulatorParseDt (dcdcNode nameVddcore))

theorem trimmed_vddcore : Trimmed vddcoreDesc := by
  apply Trimmed.mk
  · decide
  · decide
  · decide
  · intro ctl trm
    have hsel := volSel_vddarm_le (field vddcoreDesc.regs.volCtlBits ctl).toNat
    have htrm := field_le trm
    have hnumber : vddcoreDesc.number ctl trm =
        (vddarm.volSel (field vddcoreDesc.regs.volCtlBits ctl).toNat).toNat +
          ((field 0x1f trm).toNat - (0 : Nat)) * 3125 := rfl
    rw [hnumber]
    omega
  · decide

theorem calibratesExactly_iff_vddcore :
    CalibratesExactly anaRegs 0 (some tableVddcore) (vddarmAt 0 0) (dcdcNode nameVddcore) ↔
      UnitsAgree (some tableVddcore) (vddarmAt 0 0) vddcoreDesc :=
  calibratesExactly_iff anaRegs 0 (some tableVddcore) (vddarmAt 0 0) (dcdcNode nameVddcore)
    trimmed_vddcore

/-- Without a table the offset of `vddcore` is its voltage less eleven hundred microvolts. -/
theorem not_calibratesExactly_withoutTable :
    ¬ ∀ (a : AnaRegs) (anaStatus : BitVec 16) (table : Option VolParaTable) (s : Adi)
      (np : DeviceNode), Trimmed (reconfigRegulator a anaStatus (sciRegulatorParseDt np)) →
      CalibratesExactly a anaStatus table s np := by
  intro hall
  obtain ⟨off, hoff, hvalue⟩ := hall anaRegs 0 none (vddarmAt 0 0) (dcdcNode nameVddcore)
    trimmed_vddcore
  have hstored : registerDt anaRegs 0 none (vddarmAt 0 0) (dcdcNode nameVddcore) =
      some 1098900 := by
    decide
  rw [hstored] at hoff
  cases hoff
  have hexact := hvalue (by decide)
  revert hexact
  decide

end LineageA1000.Regulator
