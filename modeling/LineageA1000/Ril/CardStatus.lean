import LineageA1000.Ril.Signal

/-!
# The applications of the card

`getIccCardStatusResponse` of `ril_service.cpp` copies the status of the card out of the daemon's
struct. A number of applications that cannot be right counts as none, and a subscription index that
is not below the number becomes `-1`, which stands for no application. The comparison is one of
signed numbers and has no lower end.
-/

namespace LineageA1000.Ril

open Memory

/-! ### The records -/

/-- `RIL_AppStatus`. -/
structure RilAppStatus where
  appType : BitVec 32
  appState : BitVec 32
  persoSubstate : BitVec 32
  aidPtr : Addr
  appLabelPtr : Addr
  pin1Replaced : BitVec 32
  pin1 : BitVec 32
  pin2 : BitVec 32

/-- `RIL_CardStatus_v6`. -/
structure RilCardStatusV6 where
  cardState : BitVec 32
  universalPinState : BitVec 32
  gsmUmtsSubscriptionAppIndex : BitVec 32
  cdmaSubscriptionAppIndex : BitVec 32
  imsSubscriptionAppIndex : BitVec 32
  numApplications : BitVec 32
  applications : Nat → RilAppStatus

/-- The HAL's `AppStatus`. -/
structure AppStatus where
  appType : BitVec 32
  appState : BitVec 32
  persoSubstate : BitVec 32
  aidPtr : List UInt8
  appLabelPtr : List UInt8
  pin1Replaced : BitVec 32
  pin1 : BitVec 32
  pin2 : BitVec 32
  deriving DecidableEq

/-- The HAL's `CardStatus`. -/
structure CardStatus where
  cardState : BitVec 32
  universalPinState : BitVec 32
  gsmUmtsSubscriptionAppIndex : BitVec 32
  cdmaSubscriptionAppIndex : BitVec 32
  imsSubscriptionAppIndex : BitVec 32
  applications : List AppStatus
  deriving DecidableEq

structure RadioResponseInfo where
  type : BitVec 32
  serial : BitVec 32
  error : BitVec 32
  deriving DecidableEq

/-- What the vendor's header and the HAL's interface give to the code. -/
structure RilHeader where
  /-- `RIL_CARD_MAX_APPS`. -/
  cardMaxApps : Nat
  /-- `sizeof(RIL_CardStatus_v6)`. -/
  sizeofCardStatusV6 : Nat
  cardStatusV6At : Response → RilCardStatusV6
  /-- `RESPONSE_SOLICITED` and the type it stands for. -/
  solicited : BitVec 32 × BitVec 32
  /-- `RESPONSE_SOLICITED_ACK_EXP` and the type it stands for. -/
  solicitedAckExp : BitVec 32 × BitVec 32
  /-- `RIL_E_SUCCESS`. -/
  success : BitVec 32
  /-- `RadioError::INVALID_RESPONSE`. -/
  invalidResponse : BitVec 32
  /-- `CardState::ABSENT`. -/
  absent : BitVec 32
  /-- `PinState::UNKNOWN`. -/
  unknown : BitVec 32

/-! ### The response -/

def convertCharPtrToHidlString (m : Memory) (ptr : Addr) : List UInt8 :=
  if ptr ≠ 0 then m.cstring ptr else []

/-- `responseInfo` starts out zeroed. -/
def populateResponseInfo (h : RilHeader) (serial responseType e : BitVec 32) :
    RadioResponseInfo where
  type :=
    if responseType = h.solicited.1 then h.solicited.2
    else if responseType = h.solicitedAckExp.1 then h.solicitedAckExp.2
    else 0
  serial := serial
  error := e

/-- `a1000_napp`. -/
def a1000Napp (h : RilHeader) (pCur : RilCardStatusV6) : Nat :=
  if pCur.numApplications.slt 0 ∨ h.cardMaxApps < pCur.numApplications.toInt then 0
  else pCur.numApplications.toNat

/-- The index that is sent for one of the three. -/
def appIndex (index : BitVec 32) (napp : Nat) : BitVec 32 :=
  if index.toInt < napp then index else -1

def appStatus (m : Memory) (app : RilAppStatus) : AppStatus where
  appType := app.appType
  appState := app.appState
  persoSubstate := app.persoSubstate
  aidPtr := convertCharPtrToHidlString m app.aidPtr
  appLabelPtr := convertCharPtrToHidlString m app.appLabelPtr
  pin1Replaced := app.pin1Replaced
  pin1 := app.pin1
  pin2 := app.pin2

/-- The card status before the response is looked at. -/
def noCardStatus (h : RilHeader) : CardStatus := ⟨h.absent, h.unknown, -1, -1, -1, []⟩

def cardStatusOf (h : RilHeader) (m : Memory) (pCur : RilCardStatusV6) : CardStatus :=
  let napp := a1000Napp h pCur
  { cardState := pCur.cardState
    universalPinState := pCur.universalPinState
    gsmUmtsSubscriptionAppIndex := appIndex pCur.gsmUmtsSubscriptionAppIndex napp
    cdmaSubscriptionAppIndex := appIndex pCur.cdmaSubscriptionAppIndex napp
    imsSubscriptionAppIndex := appIndex pCur.imsSubscriptionAppIndex napp
    applications := (List.range napp).map fun i => appStatus m (pCur.applications i) }

/-- What is sent to the framework, if anyone listens there. The response is `none` for `NULL`. -/
def getIccCardStatusResponse (h : RilHeader) (m : Memory) (listening : Bool)
    (responseType serial e : BitVec 32) (response : Option Response) (responseLen : Nat) :
    Option (RadioResponseInfo × CardStatus) :=
  if listening then
    let responseInfo := populateResponseInfo h serial responseType e
    match response with
    | some r =>
        if responseLen ≠ h.sizeofCardStatusV6 then
          some (if e = h.success then { responseInfo with error := h.invalidResponse }
            else responseInfo, noCardStatus h)
        else some (responseInfo, cardStatusOf h m (h.cardStatusV6At r))
    | none =>
        some (if e = h.success then { responseInfo with error := h.invalidResponse }
          else responseInfo, noCardStatus h)
  else none

/-! ### What has to hold -/

/-- The subscriptions that have an application on the card. -/
inductive Subscription where
  | gsmUmts
  | cdma
  | ims
  deriving DecidableEq

def RilCardStatusV6.index (pCur : RilCardStatusV6) : Subscription → BitVec 32
  | .gsmUmts => pCur.gsmUmtsSubscriptionAppIndex
  | .cdma => pCur.cdmaSubscriptionAppIndex
  | .ims => pCur.imsSubscriptionAppIndex

def CardStatus.index (card : CardStatus) : Subscription → BitVec 32
  | .gsmUmts => card.gsmUmtsSubscriptionAppIndex
  | .cdma => card.cdmaSubscriptionAppIndex
  | .ims => card.imsSubscriptionAppIndex

variable {h : RilHeader} {m : Memory} {response : Option Response} {responseLen : Nat}

/-- The record has no more applications than the struct, each from its own place there, and each
index is `-1` or one of an application; an index that is one of an application is the struct's. -/
structure IndicesValid (h : RilHeader) (m : Memory) (response : Option Response)
    (responseLen : Nat) (card : CardStatus) : Prop where
  count : card.applications.length ≤ h.cardMaxApps
  copied : ∀ i app, card.applications[i]? = some app →
    ∃ r, response = some r ∧ app = appStatus m ((h.cardStatusV6At r).applications i)
  index : ∀ which, card.index which = -1 ∨
    0 ≤ (card.index which).toInt ∧ (card.index which).toInt < card.applications.length
  kept : ∀ r which, response = some r → responseLen = h.sizeofCardStatusV6 →
    0 ≤ ((h.cardStatusV6At r).index which).toInt →
    ((h.cardStatusV6At r).index which).toInt < card.applications.length →
    card.index which = (h.cardStatusV6At r).index which

/-! ### Each index -/

theorem a1000Napp_le (h : RilHeader) (pCur : RilCardStatusV6) :
    a1000Napp h pCur ≤ h.cardMaxApps := by
  rw [a1000Napp]
  split
  · exact Nat.zero_le _
  · rename_i hcount
    rw [not_or, BitVec.slt_iff_toInt_lt, Int.not_lt, Int.not_lt] at hcount
    have hnonneg : 0 ≤ pCur.numApplications.toInt := hcount.1
    have hnat := BitVec.toInt_eq_toNat_cond pCur.numApplications
    omega

theorem index_cardStatusOf (h : RilHeader) (m : Memory) (pCur : RilCardStatusV6)
    (which : Subscription) :
    (cardStatusOf h m pCur).index which = appIndex (pCur.index which) (a1000Napp h pCur) := by
  cases which <;> rfl

theorem length_applications (h : RilHeader) (m : Memory) (pCur : RilCardStatusV6) :
    (cardStatusOf h m pCur).applications.length = a1000Napp h pCur := by
  rw [cardStatusOf, List.length_map, List.length_range]

theorem appIndex_of_lt {index : BitVec 32} {napp : Nat} (hlt : index.toInt < napp) :
    appIndex index napp = index := if_pos hlt

/-- An index comes out valid unless it is below `-1`. -/
theorem appIndex_valid_iff (index : BitVec 32) (napp : Nat) :
    (appIndex index napp = -1 ∨
      0 ≤ (appIndex index napp).toInt ∧ (appIndex index napp).toInt < napp) ↔
      -1 ≤ index.toInt := by
  have hminus : (-1 : BitVec 32).toInt = -1 := by decide
  rw [appIndex]
  split
  · rename_i hlt
    rw [← BitVec.toInt_inj, hminus]
    omega
  · rename_i hge
    rw [eq_self, true_or, true_iff]
    omega

/-! ### Every response -/

theorem indicesValid_noCardStatus
    (hignored : ∀ r, response = some r → responseLen ≠ h.sizeofCardStatusV6) :
    IndicesValid h m response responseLen (noCardStatus h) := by
  apply IndicesValid.mk
  · exact Nat.zero_le _
  · intro i app happ
    cases happ
  · intro which
    cases which <;> exact .inl rfl
  · intro r which hr hlen
    exact absurd hlen (hignored r hr)

theorem indicesValid_cardStatusOf_iff (h : RilHeader) (m : Memory) (r : Response)
    (responseLen : Nat) :
    IndicesValid h m (some r) responseLen (cardStatusOf h m (h.cardStatusV6At r)) ↔
      ∀ which, -1 ≤ ((h.cardStatusV6At r).index which).toInt := by
  constructor
  · intro hvalid which
    have hindex := hvalid.index which
    rwa [index_cardStatusOf, length_applications, appIndex_valid_iff] at hindex
  · intro hindex
    apply IndicesValid.mk
    · rw [length_applications]
      exact a1000Napp_le h _
    · intro i app happ
      rw [cardStatusOf, List.getElem?_map] at happ
      obtain ⟨k, hk, rfl⟩ := Option.map_eq_some_iff.1 happ
      rw [List.getElem?_eq_some_iff] at hk
      obtain ⟨hi, rfl⟩ := hk
      exact ⟨r, rfl, by rw [List.getElem_range]⟩
    · intro which
      rw [index_cardStatusOf, length_applications, appIndex_valid_iff]
      exact hindex which
    · intro r' which hr _ _ hlt
      cases hr
      rw [length_applications] at hlt
      rw [index_cardStatusOf, appIndex_of_lt hlt]

/-- The record that is sent has valid indices exactly when no index of a struct of the right length
is below `-1`. -/
theorem indicesValid_iff (h : RilHeader) (m : Memory) (listening : Bool)
    (responseType serial e : BitVec 32) (response : Option Response) (responseLen : Nat) :
    (∀ sent ∈ getIccCardStatusResponse h m listening responseType serial e response responseLen,
      IndicesValid h m response responseLen sent.2) ↔
      (listening → ∀ r, response = some r → responseLen = h.sizeofCardStatusV6 →
        ∀ which, -1 ≤ ((h.cardStatusV6At r).index which).toInt) := by
  rw [getIccCardStatusResponse]
  cases listening with
  | false => simp
  | true =>
      simp only [if_true, forall_const]
      cases response with
      | none =>
          simp only [Option.mem_def, Option.some.injEq, forall_eq']
          refine iff_of_true ?_ fun _ hr => nomatch hr
          exact indicesValid_noCardStatus fun _ hr => nomatch hr
      | some r =>
          simp only [Option.some.injEq, forall_eq']
          split
          · rename_i hlen
            simp only [Option.mem_def, Option.some.injEq, forall_eq']
            refine iff_of_true ?_ fun heq => absurd heq hlen
            exact indicesValid_noCardStatus fun _ _ => hlen
          · rename_i hlen
            rw [not_not] at hlen
            simp only [Option.mem_def, Option.some.injEq, forall_eq']
            rw [indicesValid_cardStatusOf_iff]
            exact ⟨fun hindex _ => hindex, fun hindex => hindex hlen⟩

/-! ### The daemon's struct as it is -/

def rilAppStatusAt (response : Response) (offset : Nat) : RilAppStatus where
  appType := response.word offset
  appState := response.word (offset + 4)
  persoSubstate := response.word (offset + 8)
  aidPtr := response.word (offset + 12)
  appLabelPtr := response.word (offset + 16)
  pin1Replaced := response.word (offset + 20)
  pin1 := response.word (offset + 24)
  pin2 := response.word (offset + 28)

/-- The header that the vendor's daemon was built with. -/
def rilHeader : RilHeader where
  cardMaxApps := 8
  sizeofCardStatusV6 := 280
  cardStatusV6At response :=
    { cardState := response.word 0
      universalPinState := response.word 4
      gsmUmtsSubscriptionAppIndex := response.word 8
      cdmaSubscriptionAppIndex := response.word 12
      imsSubscriptionAppIndex := response.word 16
      numApplications := response.word 20
      applications := fun i => rilAppStatusAt response (24 + 32 * i) }
  solicited := (0, 0)
  solicitedAckExp := (3, 2)
  success := 0
  invalidResponse := 66
  absent := 0
  unknown := 0

/-- One application, and a value of the daemon's own for the index of the second subscription. -/
def responseOfBlob : Response := fun k =>
  if k = 0 ∨ k = 20 then 1 else if k = 12 then 0xFE else if 12 < k ∧ k < 20 then 0xFF else 0

/-- The daemon's own value `-2` is passed on. -/
theorem not_indicesValid_responseOfBlob :
    ¬ ∀ (h : RilHeader) (m : Memory) (listening : Bool) (responseType serial e : BitVec 32)
      (response : Option Response) (responseLen : Nat),
      ∀ sent ∈ getIccCardStatusResponse h m listening responseType serial e response responseLen,
        IndicesValid h m response responseLen sent.2 := by
  intro hall
  have hvalid := hall rilHeader (fun _ => 0) true 0 0 0 (some responseOfBlob) 280 _ rfl
  have hindex := hvalid.index .cdma
  revert hindex
  decide

end LineageA1000.Ril
