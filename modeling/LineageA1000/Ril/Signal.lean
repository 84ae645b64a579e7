import LineageA1000.Lib.Memory

/-!
# Signal strength of every length

`ril_service.cpp`: the vendor daemon delivers its signal strength as one of several versions of a
struct, each a prefix of the next, and `convertRilSignalStrengthToHal` tells them apart by the
length alone. Besides the two versions it knows it takes every other length as a part of the larger
one and fills up with the values that mean unknown. It fills up by version and not by field, so what
has arrived beyond a version can be lost.
-/

namespace LineageA1000.Ril

open Memory

/-! ### The two records -/

structure GwSignalStrength where
  signalStrength : BitVec 32
  bitErrorRate : BitVec 32
  deriving DecidableEq

structure CdmaSignalStrength where
  dbm : BitVec 32
  ecio : BitVec 32
  deriving DecidableEq

structure EvdoSignalStrength where
  dbm : BitVec 32
  ecio : BitVec 32
  signalNoiseRatio : BitVec 32
  deriving DecidableEq

structure LteSignalStrength where
  signalStrength : BitVec 32
  rsrp : BitVec 32
  rsrq : BitVec 32
  rssnr : BitVec 32
  cqi : BitVec 32
  timingAdvance : BitVec 32
  deriving DecidableEq

/-- `RIL_SignalStrength_v8`. -/
structure RilSignalStrengthV8 where
  gw : GwSignalStrength
  cdma : CdmaSignalStrength
  evdo : EvdoSignalStrength
  lte : LteSignalStrength
  deriving DecidableEq

/-- `RIL_SignalStrength_v10`. -/
structure RilSignalStrengthV10 extends RilSignalStrengthV8 where
  tdScdmaRscp : BitVec 32
  deriving DecidableEq

/-- The HAL's `SignalStrength`. -/
structure SignalStrength where
  gw : GwSignalStrength
  gwTimingAdvance : BitVec 32
  cdma : CdmaSignalStrength
  evdo : EvdoSignalStrength
  lte : LteSignalStrength
  tdScdmaRscp : BitVec 32
  deriving DecidableEq

/-- `SignalStrength signalStrength = {}`. -/
def noSignalStrength : SignalStrength := ⟨⟨0, 0⟩, 0, ⟨0, 0⟩, ⟨0, 0, 0⟩, ⟨0, 0, 0, 0, 0, 0⟩, 0⟩

/-- The bytes from the response on. -/
abbrev Response := Nat → UInt8

def Response.word (response : Response) (offset : Nat) : BitVec 32 :=
  le32 fun k => response (offset + k)

def sizeofV5 : Nat := 28

def sizeofV6 : Nat := 48

def sizeofV8 : Nat := 52

def sizeofV10 : Nat := 56

def v8At (response : Response) : RilSignalStrengthV8 where
  gw := ⟨response.word 0, response.word 4⟩
  cdma := ⟨response.word 8, response.word 12⟩
  evdo := ⟨response.word 16, response.word 20, response.word 24⟩
  lte := ⟨response.word 28, response.word 32, response.word 36, response.word 40, response.word 44,
    response.word 48⟩

def v10At (response : Response) : RilSignalStrengthV10 :=
  { v8At response with tdScdmaRscp := response.word 52 }

/-! ### The conversions -/

def intMax : BitVec 32 := 0x7FFFFFFF

/-- The fixups of the LTE fields, which both conversions begin with. They are made in the response
itself, which nobody reads afterwards. -/
def fixupLte (lte : LteSignalStrength) : LteSignalStrength where
  signalStrength := if lte.signalStrength = -1 then 99 else lte.signalStrength
  rsrp := if lte.rsrp = -1 then intMax else if lte.rsrp.slt (-1) then -lte.rsrp else lte.rsrp
  rsrq := if lte.rsrq = -1 then intMax else lte.rsrq
  rssnr := lte.rssnr
  cqi := if lte.cqi = -1 then intMax else lte.cqi
  timingAdvance := lte.timingAdvance

def convertRilSignalStrengthToHalV8 (ril : RilSignalStrengthV8) (signalStrength : SignalStrength) :
    SignalStrength :=
  { signalStrength with
    gw := ril.gw
    cdma := ril.cdma
    evdo := ril.evdo
    lte := fixupLte ril.lte
    tdScdmaRscp := intMax }

def convertRilSignalStrengthToHalV10 (ril : RilSignalStrengthV10)
    (signalStrength : SignalStrength) : SignalStrength :=
  { signalStrength with
    gw := ril.gw
    gwTimingAdvance := intMax
    cdma := ril.cdma
    evdo := ril.evdo
    lte := fixupLte ril.lte
    tdScdmaRscp := ril.tdScdmaRscp }

/-- The zeroed struct with the first bytes of the response copied over it. -/
def copied (response : Response) (responseLen : Nat) : Response :=
  let n := if responseLen < sizeofV10 then responseLen else sizeofV10
  fun k => if k < n then response k else 0

/-- The struct that stands for a response of some other length. -/
def filledUp (response : Response) (responseLen : Nat) : RilSignalStrengthV10 :=
  let v10 := v10At (copied response responseLen)
  let v10 :=
    if responseLen < sizeofV6 then
      { v10 with lte := ⟨99, intMax, intMax, intMax, intMax, v10.lte.timingAdvance⟩ }
    else v10
  { v10 with lte.timingAdvance := intMax, tdScdmaRscp := intMax }

def convertRilSignalStrengthToHal (response : Response) (responseLen : Nat)
    (signalStrength : SignalStrength) : SignalStrength :=
  if responseLen = sizeofV8 then convertRilSignalStrengthToHalV8 (v8At response) signalStrength
  else if responseLen = sizeofV10 then
    convertRilSignalStrengthToHalV10 (v10At response) signalStrength
  else convertRilSignalStrengthToHalV10 (filledUp response responseLen) signalStrength

/-- What `currentSignalStrengthInd` passes on, if anything. -/
def currentSignalStrengthInd (response : Response) (responseLen : Nat) : Option SignalStrength :=
  if responseLen < sizeofV5 then none
  else some (convertRilSignalStrengthToHal response responseLen noSignalStrength)

/-! ### Fields -/

/-- The fields of the HAL's record. -/
inductive Field where
  | gwSignalStrength
  | gwBitErrorRate
  | gwTimingAdvance
  | cdmaDbm
  | cdmaEcio
  | evdoDbm
  | evdoEcio
  | evdoSignalNoiseRatio
  | lteSignalStrength
  | lteRsrp
  | lteRsrq
  | lteRssnr
  | lteCqi
  | lteTimingAdvance
  | tdScdmaRscp
  deriving DecidableEq

def SignalStrength.get (s : SignalStrength) : Field → BitVec 32
  | .gwSignalStrength => s.gw.signalStrength
  | .gwBitErrorRate => s.gw.bitErrorRate
  | .gwTimingAdvance => s.gwTimingAdvance
  | .cdmaDbm => s.cdma.dbm
  | .cdmaEcio => s.cdma.ecio
  | .evdoDbm => s.evdo.dbm
  | .evdoEcio => s.evdo.ecio
  | .evdoSignalNoiseRatio => s.evdo.signalNoiseRatio
  | .lteSignalStrength => s.lte.signalStrength
  | .lteRsrp => s.lte.rsrp
  | .lteRsrq => s.lte.rsrq
  | .lteRssnr => s.lte.rssnr
  | .lteCqi => s.lte.cqi
  | .lteTimingAdvance => s.lte.timingAdvance
  | .tdScdmaRscp => s.tdScdmaRscp

/-- Where a field stands in the struct, if any version has it. -/
def Field.offset : Field → Option Nat
  | .gwSignalStrength => some 0
  | .gwBitErrorRate => some 4
  | .gwTimingAdvance => none
  | .cdmaDbm => some 8
  | .cdmaEcio => some 12
  | .evdoDbm => some 16
  | .evdoEcio => some 20
  | .evdoSignalNoiseRatio => some 24
  | .lteSignalStrength => some 28
  | .lteRsrp => some 32
  | .lteRsrq => some 36
  | .lteRssnr => some 40
  | .lteCqi => some 44
  | .lteTimingAdvance => some 48
  | .tdScdmaRscp => some 52

/-- The HAL's value for a field that is not known. -/
def Field.unknown : Field → BitVec 32
  | .gwSignalStrength | .gwBitErrorRate | .lteSignalStrength => 99
  | .cdmaDbm | .cdmaEcio | .evdoDbm | .evdoEcio | .evdoSignalNoiseRatio => -1
  | .gwTimingAdvance | .lteRsrp | .lteRsrq | .lteRssnr | .lteCqi | .lteTimingAdvance
  | .tdScdmaRscp => intMax

/-- The field lies wholly in a response of the length. -/
def Field.Present (f : Field) (responseLen : Nat) : Prop :=
  ∃ offset ∈ f.offset, offset + 4 ≤ responseLen

instance (f : Field) (responseLen : Nat) : Decidable (f.Present responseLen) :=
  inferInstanceAs (Decidable (∃ offset ∈ f.offset, offset + 4 ≤ responseLen))

/-- What the conversions make of a field's word. -/
def Field.value (f : Field) (w : BitVec 32) : BitVec 32 :=
  match f with
  | .lteSignalStrength => if w = -1 then 99 else w
  | .lteRsrp => if w = -1 then intMax else if w.slt (-1) then -w else w
  | .lteRsrq | .lteCqi => if w = -1 then intMax else w
  | _ => w

/-- The words that stand for an unknown value. -/
def Field.MeansUnknown (f : Field) (w : BitVec 32) : Prop :=
  match f with
  | .lteSignalStrength => w = 99 ∨ w = -1
  | .lteRsrp => w = intMax ∨ w = -intMax ∨ w = -1
  | .lteRsrq | .lteCqi => w = intMax ∨ w = -1
  | f => w = f.unknown

/-- The fields that a response of the length is filled up with. -/
def overwritten (responseLen : Nat) : List Field :=
  if responseLen = sizeofV8 ∨ responseLen = sizeofV10 then []
  else if responseLen < sizeofV6 then
    [.lteSignalStrength, .lteRsrp, .lteRsrq, .lteRssnr, .lteCqi, .lteTimingAdvance, .tdScdmaRscp]
  else [.lteTimingAdvance, .tdScdmaRscp]

/-! ### What has to hold -/

/-- What has arrived whole is as the larger version has it, what has not is unknown, and nothing
behind the response is looked at. -/
structure LengthHonest (response : Response) (responseLen : Nat) (s : SignalStrength) : Prop where
  field : ∀ f : Field, (convertRilSignalStrengthToHal response responseLen s).get f =
    if f.Present responseLen then (convertRilSignalStrengthToHalV10 (v10At response) s).get f
    else f.unknown
  own : ∀ response' : Response, (∀ k < responseLen, response' k = response k) →
    convertRilSignalStrengthToHal response' responseLen s =
      convertRilSignalStrengthToHal response responseLen s

/-- Two lengths of one response agree where both have a field. -/
theorem LengthHonest.agree {response : Response} {n m : Nat} {s : SignalStrength}
    (hn : LengthHonest response n s) (hm : LengthHonest response m s) {f : Field}
    (hfn : f.Present n) (hfm : f.Present m) :
    (convertRilSignalStrengthToHal response n s).get f =
      (convertRilSignalStrengthToHal response m s).get f := by
  rw [hn.field, if_pos hfn, hm.field, if_pos hfm]

/-- The fields that are filled up though they have arrived mean unknown anyway, and the one that the
smaller version does not set is unknown from the start. -/
structure LosesNothing (response : Response) (responseLen : Nat) (s : SignalStrength) : Prop where
  arrived : ∀ f ∈ overwritten responseLen, ∀ offset ∈ f.offset, offset + 4 ≤ responseLen →
    f.MeansUnknown (response.word offset)
  unset : responseLen = sizeofV8 → s.gwTimingAdvance = intMax

theorem ite_eq_iff_or {w none unknown : BitVec 32} :
    (if w = none then unknown else w) = unknown ↔ w = unknown ∨ w = none := by
  split
  case isTrue hnone => exact ⟨fun _ => .inr hnone, fun _ => rfl⟩
  case isFalse hsome => exact (or_iff_left hsome).symm

theorem value_eq_unknown_iff (f : Field) (w : BitVec 32) :
    f.value w = f.unknown ↔ f.MeansUnknown w := by
  cases f with
  | lteSignalStrength | lteRsrq | lteCqi => exact ite_eq_iff_or
  | lteRsrp =>
      show (if w = -1 then intMax else if w.slt (-1) then -w else w) = intMax ↔
        w = intMax ∨ w = -intMax ∨ w = -1
      split
      case isTrue hnone => exact ⟨fun _ => .inr (.inr hnone), fun _ => rfl⟩
      case isFalse hsome =>
        rw [or_iff_left hsome]
        split
        case isTrue hneg =>
          have hne : w ≠ intMax := by
            rintro rfl
            exact absurd hneg (by decide)
          rw [or_iff_right hne]
          constructor
          · intro h
            rw [← h, BitVec.neg_neg]
          · intro h
            rw [h, BitVec.neg_neg]
        case isFalse hpos =>
          have hne : w ≠ -intMax := by
            rintro rfl
            exact hpos (by decide)
          rw [or_iff_left hne]
  | _ => exact Iff.rfl

/-! ### Each length -/

theorem v10_get (response : Response) (s : SignalStrength) (f : Field) :
    (convertRilSignalStrengthToHalV10 (v10At response) s).get f =
      match f.offset with
      | some offset => f.value (response.word offset)
      | none => intMax := by
  cases f <;> rfl

theorem v8_get (response : Response) (s : SignalStrength) (f : Field) :
    (convertRilSignalStrengthToHalV8 (v8At response) s).get f =
      if f = .gwTimingAdvance then s.gwTimingAdvance
      else if f = .tdScdmaRscp then intMax
      else (convertRilSignalStrengthToHalV10 (v10At response) s).get f := by
  cases f <;> rfl

theorem copied_apply (response : Response) (responseLen k : Nat) :
    copied response responseLen k =
      if k < responseLen ∧ k < sizeofV10 then response k else 0 := by
  rw [copied]
  dsimp only
  congr 1
  rw [eq_iff_iff]
  split <;> omega

/-- The bytes of a word that lies in what is copied are the response's. -/
theorem word_copied {response : Response} {responseLen offset : Nat}
    (hlen : offset + 4 ≤ responseLen) (hsize : offset + 4 ≤ sizeofV10) :
    (copied response responseLen).word offset = response.word offset := by
  apply le32_congr
  intro k hk
  rw [copied_apply]
  exact if_pos (by omega)

theorem filledUp_get (response : Response) {responseLen : Nat}
    (hother : ¬ (responseLen = sizeofV8 ∨ responseLen = sizeofV10)) (s : SignalStrength)
    (f : Field) :
    (convertRilSignalStrengthToHalV10 (filledUp response responseLen) s).get f =
      if f ∈ overwritten responseLen then f.unknown
      else (convertRilSignalStrengthToHalV10 (v10At (copied response responseLen)) s).get f := by
  rw [filledUp, overwritten, if_neg hother]
  dsimp only
  split
  · cases f <;> rfl
  · cases f <;> rfl

/-- Whatever the length, only the response's own bytes are looked at. -/
theorem convert_own {response response' : Response} {responseLen : Nat}
    (hsame : ∀ k < responseLen, response' k = response k) (s : SignalStrength) :
    convertRilSignalStrengthToHal response' responseLen s =
      convertRilSignalStrengthToHal response responseLen s := by
  have hword : ∀ offset, offset + 4 ≤ responseLen → response'.word offset = response.word offset :=
    fun offset hoffset => le32_congr fun k hk => hsame _ (by omega)
  rw [convertRilSignalStrengthToHal, convertRilSignalStrengthToHal]
  split
  case isTrue h8 =>
    rw [h8] at hword
    have hv8 : v8At response' = v8At response := by
      simp (disch := decide) only [v8At, hword]
    rw [hv8]
  split
  case isTrue h10 =>
    rw [h10] at hword
    have hv10 : v10At response' = v10At response := by
      simp (disch := decide) only [v10At, v8At, hword]
    rw [hv10]
  · have hcopied : copied response' responseLen = copied response responseLen := by
      funext k
      rw [copied_apply, copied_apply]
      split
      case isTrue hk => exact hsame k hk.1
      case isFalse => rfl
    rw [filledUp, hcopied, ← filledUp]

/-- A field that is not filled up has arrived, if the struct has it at all. -/
theorem arrived_of_not_overwritten {responseLen : Nat} (hlen : sizeofV5 ≤ responseLen)
    (hother : ¬ (responseLen = sizeofV8 ∨ responseLen = sizeofV10)) {f : Field}
    (hf : f ∉ overwritten responseLen) {offset : Nat} (hoffset : f.offset = some offset) :
    offset + 4 ≤ responseLen ∧ offset + 4 ≤ sizeofV10 := by
  rw [overwritten, if_neg hother] at hf
  rw [sizeofV5] at hlen
  rw [sizeofV10]
  split at hf
  case isTrue hshort =>
    cases f <;> simp [Field.offset] at hf hoffset <;> omega
  case isFalse hlong =>
    rw [sizeofV6] at hlong
    cases f <;> simp [Field.offset] at hf hoffset <;> omega

theorem not_present_of_offset {f : Field} (hoffset : f.offset = none) (responseLen : Nat) :
    ¬ f.Present responseLen := by
  intro ⟨offset, hmem, _⟩
  rw [hoffset] at hmem
  cases hmem

/-- What a field has to be. -/
def expected (response : Response) (responseLen : Nat) (s : SignalStrength) (f : Field) :
    BitVec 32 :=
  if f.Present responseLen then (convertRilSignalStrengthToHalV10 (v10At response) s).get f
  else f.unknown

/-- The older version is converted right, but for the one word that it leaves as it was. -/
theorem v8_field_iff (response : Response) (s : SignalStrength) (f : Field) :
    (convertRilSignalStrengthToHalV8 (v8At response) s).get f = expected response sizeofV8 s f ↔
      (f = .gwTimingAdvance → s.gwTimingAdvance = intMax) := by
  rw [v8_get, expected]
  by_cases hgw : f = .gwTimingAdvance
  · rw [hgw, if_pos rfl, if_neg (not_present_of_offset rfl _)]
    exact ⟨fun h _ => h, fun h => h rfl⟩
  rw [if_neg hgw]
  simp only [hgw, false_implies, iff_true]
  by_cases hrscp : f = .tdScdmaRscp
  · rw [hrscp, if_pos rfl, if_neg (by decide)]
    rfl
  rw [if_neg hrscp, if_pos]
  cases f <;> first | decide | contradiction

theorem v10_field (response : Response) (s : SignalStrength) (f : Field) :
    (convertRilSignalStrengthToHalV10 (v10At response) s).get f =
      expected response sizeofV10 s f := by
  rw [expected]
  by_cases hgw : f = .gwTimingAdvance
  · rw [hgw, if_neg (not_present_of_offset rfl _)]
    rfl
  rw [if_pos]
  cases f <;> first | decide | contradiction

/-- At the other lengths a field is right if it is not filled up, or if it is missing or means
unknown. -/
theorem filledUp_field_iff (response : Response) {responseLen : Nat}
    (hlen : sizeofV5 ≤ responseLen) (hother : ¬ (responseLen = sizeofV8 ∨ responseLen = sizeofV10))
    (s : SignalStrength) (f : Field) :
    (convertRilSignalStrengthToHalV10 (filledUp response responseLen) s).get f =
        expected response responseLen s f ↔
      (f ∈ overwritten responseLen → ∀ offset ∈ f.offset, offset + 4 ≤ responseLen →
        f.MeansUnknown (response.word offset)) := by
  rw [filledUp_get response hother, expected, v10_get, v10_get]
  by_cases hwritten : f ∈ overwritten responseLen
  · rw [if_pos hwritten]
    simp only [hwritten, true_implies]
    by_cases hpresent : f.Present responseLen
    · rw [if_pos hpresent]
      obtain ⟨offset, hoffset, hin⟩ := hpresent
      rw [Option.mem_def] at hoffset
      rw [hoffset]
      dsimp only
      rw [eq_comm, value_eq_unknown_iff]
      constructor
      · intro hunknown offset' hoffset' _
        rw [← Option.mem_some.1 hoffset']
        exact hunknown
      · intro hunknown
        exact hunknown offset rfl hin
    · rw [if_neg hpresent]
      exact ⟨fun _ offset hoffset hin => absurd ⟨offset, hoffset, hin⟩ hpresent, fun _ => rfl⟩
  · rw [if_neg hwritten]
    simp only [hwritten, false_implies, iff_true]
    cases hoffset : f.offset with
    | none =>
        rw [if_neg (not_present_of_offset hoffset _)]
        cases f <;> first | rfl | cases hoffset
    | some offset =>
        obtain ⟨hin, hsize⟩ := arrived_of_not_overwritten hlen hother hwritten hoffset
        have hpresent : f.Present responseLen := ⟨offset, hoffset, hin⟩
        rw [if_pos hpresent]
        dsimp only
        rw [word_copied hin hsize]

/-- One field is as it should be exactly if it loses nothing. -/
theorem field_iff (response : Response) {responseLen : Nat} (hlen : sizeofV5 ≤ responseLen)
    (s : SignalStrength) (f : Field) :
    (convertRilSignalStrengthToHal response responseLen s).get f =
        (if f.Present responseLen then (convertRilSignalStrengthToHalV10 (v10At response) s).get f
        else f.unknown) ↔
      (f ∈ overwritten responseLen → ∀ offset ∈ f.offset, offset + 4 ≤ responseLen →
        f.MeansUnknown (response.word offset)) ∧
      (f = .gwTimingAdvance → responseLen = sizeofV8 → s.gwTimingAdvance = intMax) := by
  have hwhole : responseLen = sizeofV8 ∨ responseLen = sizeofV10 → f ∉ overwritten responseLen := by
    intro hsize
    rw [overwritten, if_pos hsize]
    exact List.not_mem_nil
  show _ = expected response responseLen s f ↔ _
  by_cases h8 : responseLen = sizeofV8
  · have hwritten := hwhole (.inl h8)
    rw [convertRilSignalStrengthToHal, if_pos h8]
    subst h8
    simp only [hwritten, false_implies, true_and, true_implies]
    exact v8_field_iff response s f
  simp only [h8, false_implies, implies_true, and_true]
  by_cases h10 : responseLen = sizeofV10
  · have hwritten := hwhole (.inr h10)
    rw [convertRilSignalStrengthToHal, if_neg h8, if_pos h10]
    subst h10
    simp only [hwritten, false_implies, iff_true]
    exact v10_field response s f
  rw [convertRilSignalStrengthToHal, if_neg h8, if_neg h10]
  exact filledUp_field_iff response hlen (not_or.2 ⟨h8, h10⟩) s f

/-- From the smallest version on, a response is converted honestly exactly if nothing that has
arrived is filled up. -/
theorem lengthHonest_iff_losesNothing (response : Response) {responseLen : Nat}
    (hlen : sizeofV5 ≤ responseLen) (s : SignalStrength) :
    LengthHonest response responseLen s ↔ LosesNothing response responseLen s := by
  constructor
  · intro hhonest
    refine ⟨fun f hf => ?_, fun h8 => ?_⟩
    · exact ((field_iff response hlen s f).1 (hhonest.field f)).1 hf
    · exact ((field_iff response hlen s _).1 (hhonest.field .gwTimingAdvance)).2 rfl h8
  · intro hloses
    refine ⟨fun f => ?_, fun response' hsame => convert_own hsame s⟩
    exact (field_iff response hlen s f).2 ⟨hloses.arrived f, fun _ h8 => hloses.unset h8⟩

/-- A response of zeros but for the LTE timing advance. -/
def advanced : Response := fun k => if k = 48 then 7 else 0

theorem lengthHonest_iff_losesNothing_v6 :
    LengthHonest advanced 48 noSignalStrength ↔ LosesNothing advanced 48 noSignalStrength :=
  lengthHonest_iff_losesNothing advanced (by decide) noSignalStrength

/-- Of a response one word longer than the larger version the timing advance is lost, and of the
smaller version the timing advance of the GSM fields is zero and not unknown. -/
theorem arrived_field_is_lost :
    ((currentSignalStrengthInd advanced 60).map fun s => s.lte.timingAdvance) = some intMax ∧
      (convertRilSignalStrengthToHalV10 (v10At advanced) noSignalStrength).lte.timingAdvance = 7 ∧
      ¬ LengthHonest advanced 60 noSignalStrength ∧
      ((currentSignalStrengthInd advanced 52).map fun s => s.gwTimingAdvance) = some 0 ∧
      ¬ LengthHonest advanced 52 noSignalStrength := by
  refine ⟨by decide, by decide, fun hhonest => ?_, by decide, fun hhonest => ?_⟩
  · have hfield := hhonest.field .lteTimingAdvance
    revert hfield
    decide
  · have hfield := hhonest.field .gwTimingAdvance
    revert hfield
    decide

end LineageA1000.Ril
