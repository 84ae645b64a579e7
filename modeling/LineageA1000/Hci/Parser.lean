import LineageA1000.Hci.Layer
import LineageA1000.Lib.Errno
import Mathlib.Algebra.GroupWithZero.Nat

/-!
# The parsers of the controller's replies

`hci_packet_parser.cc`, as far as the controller's start-up calls it. Every parser reads the header
of a Command Complete event through one function, which answers another event or a status other than
success with a null pointer; the parser then reads its outputs behind the header and frees the
packet. What a parser does to memory is part of its result here: it may abort at a `CHECK`, read
through the null pointer or behind the parameters, or write behind the outputs of its caller. The
opcodes are from another header.
-/

namespace LineageA1000.Hci

/-- A reply whose buffer holds the parameters that its header announces. -/
structure Packet where
  eventCode : BitVec 8
  params : List (BitVec 8)
  fits : params.length < 256

/-- Why a parser does not return: one of its `CHECK`s, or what it does to memory. -/
inductive Stop where
  | check
  | readNull
  | readPast
  | writePast
  deriving DecidableEq

/-- A parser that returned: its outputs, cell by cell, and how often it freed the packet. -/
structure Returned where
  out : List Nat
  frees : Nat
  deriving DecidableEq

/-- A pointer into the parameters: what lies from it to their end, or `NULL`. -/
abbrev Cursor := Option (List (BitVec 8))

/-! ### Streams -/

def streamToUint8 : Cursor → Except Stop (Nat × Cursor)
  | none => .error .readNull
  | some [] => .error .readPast
  | some (b :: rest) => .ok (b.toNat, some rest)

def streamToUint16 (stream : Cursor) : Except Stop (Nat × Cursor) := do
  let (low, stream) ← streamToUint8 stream
  let (high, stream) ← streamToUint8 stream
  return (low + 256 * high, stream)

/-- The pointer moves and nothing is read. -/
def streamSkipUint8 (stream : Cursor) : Cursor := stream.map fun rest => rest.drop 1

def streamToArray : Nat → Cursor → Except Stop (List Nat × Cursor)
  | 0, stream => .ok ([], stream)
  | n + 1, stream => do
      let (b, stream) ← streamToUint8 stream
      let (bs, stream) ← streamToArray n stream
      return (b :: bs, stream)

/-- `RawAddress::kLength`. -/
def rawAddressLength : Nat := 6

/-- `sizeof(bt_device_features_t)`. -/
def sizeofDeviceFeatures : Nat := 8

/-- What a parser takes from the stream. An address is stored from its last byte on. -/
inductive Field where
  | uint8
  | uint16
  | skipUint8
  | array (n : Nat)
  | bdaddr
  deriving DecidableEq

def Field.read (stream : Cursor) : Field → Except Stop (List Nat × Cursor)
  | .uint8 => do
      let (value, stream) ← streamToUint8 stream
      return ([value], stream)
  | .uint16 => do
      let (value, stream) ← streamToUint16 stream
      return ([value], stream)
  | .skipUint8 => .ok ([], streamSkipUint8 stream)
  | .array n => streamToArray n stream
  | .bdaddr => do
      let (bytes, stream) ← streamToArray rawAddressLength stream
      return (bytes.reverse, stream)

def readFields (stream : Cursor) : List Field → Except Stop (List Nat × Cursor)
  | [] => .ok ([], stream)
  | field :: fields => do
      let (cells, stream) ← field.read stream
      let (more, stream) ← readFields stream fields
      return (cells ++ more, stream)

/-- A store to the outputs, of which the caller has so many. -/
def writeCells (out : List Nat) (start : Nat) (cells : List Nat) : Except Stop (List Nat) :=
  if start + cells.length ≤ out.length then
    .ok (out.take start ++ cells ++ out.drop (start + cells.length))
  else .error .writePast

/-! ### The header -/

/-- `NO_OPCODE_CHECKING`. -/
def noOpcodeChecking : BitVec 16 := 0

/-- `read_command_complete_header`. -/
def readCommandCompleteHeader (response : Packet) (expectedOpcode : BitVec 16)
    (minimumBytesAfter : Nat) : Except Stop Cursor :=
  if response.eventCode ≠ commandCompleteEvt then .ok none
  else if ¬ 4 + minimumBytesAfter ≤ response.params.length then .error .check
  else do
    let stream := streamSkipUint8 (some response.params)
    let (opcode, stream) ← streamToUint16 stream
    if expectedOpcode ≠ noOpcodeChecking ∧ opcode ≠ expectedOpcode.toNat then .error .check
    else
      let (status, stream) ← streamToUint8 stream
      if status ≠ 0 then return none
      else return stream

/-! ### The parsers -/

/-- The opcodes that the replies are checked against. -/
structure Opcodes where
  readBufferSize : BitVec 16
  readLocalVersionInfo : BitVec 16
  readLocalSupportedCodecs : BitVec 16
  readBdAddr : BitVec 16
  readLocalSupportedCmds : BitVec 16
  readLocalExtFeatures : BitVec 16
  bleReadWhiteListSize : BitVec 16
  bleReadBufferSize : BitVec 16
  bleReadSupportedStates : BitVec 16
  bleReadLocalSptFeat : BitVec 16
  bleReadResolvingListSize : BitVec 16
  bleReadDefaultDataLength : BitVec 16
  bleReadMaximumDataLength : BitVec 16
  leReadMaximumAdvertisingDataLength : BitVec 16
  leReadNumberOfSupportedAdvertisingSets : BitVec 16

/-- A parser that stores one field after the other; `checked` is its `CHECK(stream != NULL)`. -/
def parseFields (checked : Bool) (opcode : BitVec 16) (minimumBytesAfter : Nat)
    (fields : List Field) (response : Packet) (out : List Nat) : Except Stop Returned := do
  let stream ← readCommandCompleteHeader response opcode minimumBytesAfter
  if checked ∧ stream = none then .error .check
  else
    let (cells, _) ← readFields stream fields
    let out ← writeCells out 0 cells
    return ⟨out, 1⟩

def parseGenericCommandComplete (response : Packet) (out : List Nat) : Except Stop Returned := do
  let _ ← readCommandCompleteHeader response noOpcodeChecking 0
  return ⟨out, 1⟩

def parseReadBufferSizeResponse (h : Opcodes) :=
  parseFields true h.readBufferSize 5 [.uint16, .skipUint8, .uint16]

def parseReadLocalVersionInfoResponse (h : Opcodes) :=
  parseFields true h.readLocalVersionInfo 8 [.uint8, .uint16, .uint8, .uint16, .uint16]

/-- The loop over the codecs, whose output pointer moves on. -/
def storeCodecs : Nat → Nat → Cursor → List Nat → Except Stop (List Nat)
  | 0, _, _, out => .ok out
  | n + 1, position, stream, out => do
      let (codec, stream) ← streamToUint8 stream
      let out ← writeCells out position [codec]
      storeCodecs n (position + 1) stream out

def parseReadLocalSupportedCodecsResponse (h : Opcodes) (response : Packet) (out : List Nat) :
    Except Stop Returned := do
  let stream ← readCommandCompleteHeader response h.readLocalSupportedCodecs 0
  if stream = none then return ⟨out, 1⟩
  else
    let (number, stream) ← streamToUint8 stream
    let out ← writeCells out 0 [number]
    let out ← storeCodecs number 1 stream out
    return ⟨out, 1⟩

def parseBleReadOffloadFeaturesResponse (response : Packet) (out : List Nat) :
    Except Stop Returned := do
  let stream ← readCommandCompleteHeader response noOpcodeChecking 0
  let out ← writeCells out 0 [if stream = none then 0 else 1]
  return ⟨out, 1⟩

def parseReadBdAddrResponse (h : Opcodes) :=
  parseFields true h.readBdAddr rawAddressLength [.bdaddr]

def parseReadLocalSupportedCommandsResponse (h : Opcodes) (supportedCommandsLength : Nat) :=
  parseFields true h.readLocalSupportedCmds supportedCommandsLength
    [.array supportedCommandsLength]

/-- The page comes first, then the last page, then the pages one after another. -/
def parseReadLocalExtendedFeaturesResponse (h : Opcodes) (featurePagesCount : Nat)
    (response : Packet) (out : List Nat) : Except Stop Returned := do
  let stream ← readCommandCompleteHeader response h.readLocalExtFeatures (2 + sizeofDeviceFeatures)
  if stream = none then .error .check
  else
    let (pageNumber, stream) ← streamToUint8 stream
    let out ← writeCells out 0 [pageNumber]
    let (maxPageNumber, stream) ← streamToUint8 stream
    let out ← writeCells out 1 [maxPageNumber]
    if ¬ pageNumber < featurePagesCount then .error .check
    else
      let (features, _) ← streamToArray sizeofDeviceFeatures stream
      let out ← writeCells out (2 + sizeofDeviceFeatures * pageNumber) features
      return ⟨out, 1⟩

def parseBleReadWhiteListSizeResponse (h : Opcodes) :=
  parseFields true h.bleReadWhiteListSize 1 [.uint8]

def parseBleReadBufferSizeResponse (h : Opcodes) :=
  parseFields true h.bleReadBufferSize 3 [.uint16, .uint8]

def parseBleReadSupportedStatesResponse (h : Opcodes) (supportedStatesSize : Nat) :=
  parseFields true h.bleReadSupportedStates supportedStatesSize [.array supportedStatesSize]

def parseBleReadLocalSupportedFeaturesResponse (h : Opcodes) :=
  parseFields true h.bleReadLocalSptFeat sizeofDeviceFeatures [.array sizeofDeviceFeatures]

def parseBleReadResolvingListSizeResponse (h : Opcodes) :=
  parseFields false h.bleReadResolvingListSize 1 [.uint8]

def parseBleReadSuggestedDefaultDataLengthResponse (h : Opcodes) :=
  parseFields false h.bleReadDefaultDataLength 2 [.uint16]

def parseBleReadMaximumDataLengthResponse (h : Opcodes) :=
  parseFields false h.bleReadMaximumDataLength 8 [.uint16, .uint16, .uint16, .uint16]

def parseBleReadMaximumAdvertisingDataLength (h : Opcodes) :=
  parseFields false h.leReadMaximumAdvertisingDataLength 2 [.uint16]

def parseBleReadNumberOfSupportedAdvertisingSets (h : Opcodes) :=
  parseFields false h.leReadNumberOfSupportedAdvertisingSets 1 [.uint8]

/-! ### What a reply says -/

/-- The opcode field of a Command Complete event. -/
def Packet.opcode (packet : Packet) : Nat :=
  (packet.params.getD 1 0).toNat + 256 * (packet.params.getD 2 0).toNat

def Packet.status (packet : Packet) : Nat := (packet.params.getD 3 0).toNat

/-- What lies behind the status. -/
def Packet.payload (packet : Packet) : List (BitVec 8) := packet.params.drop 4

def Packet.Matches (packet : Packet) (expected : BitVec 16) : Prop :=
  expected = noOpcodeChecking ∨ packet.opcode = expected.toNat

/-- A success reply, of whatever command. -/
def Packet.Success (packet : Packet) : Prop :=
  packet.eventCode = commandCompleteEvt ∧ 4 ≤ packet.params.length ∧ packet.status = 0

instance (packet : Packet) : Decidable packet.Success := by
  unfold Packet.Success
  infer_instance

/-- A success reply to the command, long enough for its parser. -/
def Packet.Accepted (packet : Packet) (expected : BitVec 16) (minimum : Nat) : Prop :=
  packet.eventCode = commandCompleteEvt ∧ 4 + minimum ≤ packet.params.length ∧
    packet.Matches expected ∧ packet.status = 0

/-- A reply that the header answers with `NULL`. -/
def Packet.Refused (packet : Packet) (expected : BitVec 16) (minimum : Nat) : Prop :=
  packet.eventCode ≠ commandCompleteEvt ∨
    4 + minimum ≤ packet.params.length ∧ packet.Matches expected ∧ packet.status ≠ 0

/-- The bytes a field takes. -/
def Field.size : Field → Nat
  | .uint8 => 1
  | .uint16 => 2
  | .skipUint8 => 1
  | .array n => n
  | .bdaddr => rawAddressLength

/-- How many cells it is stored in. -/
def Field.width : Field → Nat
  | .uint8 => 1
  | .uint16 => 1
  | .skipUint8 => 0
  | .array n => n
  | .bdaddr => rawAddressLength

def bytesOf (n : Nat) (payload : List (BitVec 8)) : List Nat :=
  (payload.take n).map BitVec.toNat

/-- What a field at the start of the payload stands for. -/
def Field.cells (payload : List (BitVec 8)) : Field → List Nat
  | .uint8 => bytesOf 1 payload
  | .uint16 => [(payload.getD 0 0).toNat + 256 * (payload.getD 1 0).toNat]
  | .skipUint8 => []
  | .array n => bytesOf n payload
  | .bdaddr => (bytesOf rawAddressLength payload).reverse

def cellsOf (payload : List (BitVec 8)) : List Field → List Nat
  | [] => []
  | field :: fields => field.cells payload ++ cellsOf (payload.drop field.size) fields

def sizeOfFields (fields : List Field) : Nat := (fields.map Field.size).sum

def widthOfFields (fields : List Field) : Nat := (fields.map Field.width).sum

/-! ### The parsers of the start-up -/

inductive Parser where
  | genericCommandComplete
  | readBufferSize
  | readLocalVersionInfo
  | readBdAddr
  | readLocalSupportedCommands
  | readLocalExtendedFeatures
  | bleReadOffloadFeatures
  | bleReadWhiteListSize
  | bleReadBufferSize
  | bleReadSupportedStates
  | bleReadLocalSupportedFeatures
  | bleReadResolvingListSize
  | bleReadMaximumDataLength
  | bleReadSuggestedDefaultDataLength
  | bleReadMaximumAdvertisingDataLength
  | bleReadNumberOfSupportedAdvertisingSets
  | readLocalSupportedCodecs
  deriving DecidableEq

/-- `HCI_SUPPORTED_COMMANDS_ARRAY_SIZE`. -/
def hciSupportedCommandsArraySize : Nat := 64

/-- `MAX_FEATURES_CLASSIC_PAGE_COUNT`. -/
def maxFeaturesClassicPageCount : Nat := 3

/-- `BLE_SUPPORTED_STATES_SIZE`. -/
def bleSupportedStatesSize : Nat := 8

/-- `MAX_LOCAL_SUPPORTED_CODECS_SIZE`. -/
def maxLocalSupportedCodecsSize : Nat := 8

/-- The parser as `start_up` calls it. -/
def Parser.parse (h : Opcodes) : Parser → Packet → List Nat → Except Stop Returned
  | .genericCommandComplete => parseGenericCommandComplete
  | .readBufferSize => parseReadBufferSizeResponse h
  | .readLocalVersionInfo => parseReadLocalVersionInfoResponse h
  | .readBdAddr => parseReadBdAddrResponse h
  | .readLocalSupportedCommands =>
      parseReadLocalSupportedCommandsResponse h hciSupportedCommandsArraySize
  | .readLocalExtendedFeatures =>
      parseReadLocalExtendedFeaturesResponse h maxFeaturesClassicPageCount
  | .bleReadOffloadFeatures => parseBleReadOffloadFeaturesResponse
  | .bleReadWhiteListSize => parseBleReadWhiteListSizeResponse h
  | .bleReadBufferSize => parseBleReadBufferSizeResponse h
  | .bleReadSupportedStates => parseBleReadSupportedStatesResponse h bleSupportedStatesSize
  | .bleReadLocalSupportedFeatures => parseBleReadLocalSupportedFeaturesResponse h
  | .bleReadResolvingListSize => parseBleReadResolvingListSizeResponse h
  | .bleReadMaximumDataLength => parseBleReadMaximumDataLengthResponse h
  | .bleReadSuggestedDefaultDataLength => parseBleReadSuggestedDefaultDataLengthResponse h
  | .bleReadMaximumAdvertisingDataLength => parseBleReadMaximumAdvertisingDataLength h
  | .bleReadNumberOfSupportedAdvertisingSets => parseBleReadNumberOfSupportedAdvertisingSets h
  | .readLocalSupportedCodecs => parseReadLocalSupportedCodecsResponse h

/-- The cells that `start_up` passes: a scalar is one, an array as many as it has bytes. -/
def Parser.room : Parser → Nat
  | .genericCommandComplete => 0
  | .readBufferSize => 2
  | .readLocalVersionInfo => 5
  | .readBdAddr => rawAddressLength
  | .readLocalSupportedCommands => hciSupportedCommandsArraySize
  | .readLocalExtendedFeatures => 2 + sizeofDeviceFeatures * maxFeaturesClassicPageCount
  | .bleReadOffloadFeatures => 1
  | .bleReadWhiteListSize => 1
  | .bleReadBufferSize => 2
  | .bleReadSupportedStates => bleSupportedStatesSize
  | .bleReadLocalSupportedFeatures => sizeofDeviceFeatures
  | .bleReadResolvingListSize => 1
  | .bleReadMaximumDataLength => 4
  | .bleReadSuggestedDefaultDataLength => 1
  | .bleReadMaximumAdvertisingDataLength => 1
  | .bleReadNumberOfSupportedAdvertisingSets => 1
  | .readLocalSupportedCodecs => 1 + maxLocalSupportedCodecsSize

/-- What the outputs are after a success reply. A page of features replaces the one of its number,
the codecs the first of their array. -/
def Parser.filled (payload : List (BitVec 8)) (out : List Nat) : Parser → List Nat
  | .genericCommandComplete => out
  | .readBufferSize => cellsOf payload [.uint16, .skipUint8, .uint16]
  | .readLocalVersionInfo => cellsOf payload [.uint8, .uint16, .uint8, .uint16, .uint16]
  | .readBdAddr => cellsOf payload [.bdaddr]
  | .readLocalSupportedCommands => bytesOf hciSupportedCommandsArraySize payload
  | .readLocalExtendedFeatures =>
      let page := 2 + sizeofDeviceFeatures * (payload.getD 0 0).toNat
      bytesOf 2 payload ++ (out.take page).drop 2 ++
        bytesOf sizeofDeviceFeatures (payload.drop 2) ++ out.drop (page + sizeofDeviceFeatures)
  | .bleReadOffloadFeatures => [1]
  | .bleReadWhiteListSize => bytesOf 1 payload
  | .bleReadBufferSize => cellsOf payload [.uint16, .uint8]
  | .bleReadSupportedStates => bytesOf bleSupportedStatesSize payload
  | .bleReadLocalSupportedFeatures => bytesOf sizeofDeviceFeatures payload
  | .bleReadResolvingListSize => bytesOf 1 payload
  | .bleReadMaximumDataLength => cellsOf payload [.uint16, .uint16, .uint16, .uint16]
  | .bleReadSuggestedDefaultDataLength => cellsOf payload [.uint16]
  | .bleReadMaximumAdvertisingDataLength => cellsOf payload [.uint16]
  | .bleReadNumberOfSupportedAdvertisingSets => bytesOf 1 payload
  | .readLocalSupportedCodecs =>
      let number := (payload.getD 0 0).toNat
      bytesOf (1 + number) payload ++ out.drop (1 + number)

/-- What they are after a failure reply: only the offload features are set, to unsupported. -/
def Parser.failed (out : List Nat) : Parser → List Nat
  | .bleReadOffloadFeatures => [0]
  | _ => out

/-- A parser that is given the reply either stops at a `CHECK`, or frees the reply once and leaves
the outputs as the reply's status says. -/
def SurvivesAs (result : Except Stop Returned) (packet : Packet) (filled failed : List Nat) :
    Prop :=
  match result with
  | .error stop => stop = .check
  | .ok returned => returned.frees = 1 ∧
      returned.out = if packet.Success then filled else failed

def Parser.Survives (p : Parser) (h : Opcodes) (packet : Packet) (out : List Nat) : Prop :=
  SurvivesAs (p.parse h packet out) packet (p.filled packet.payload out) (p.failed out)

/-- The replies that a parser without a `CHECK` of its own can take: those that are not refused,
and of the codecs those whose number both the reply and the caller have room for. -/
def Parser.Robust (h : Opcodes) (packet : Packet) : Parser → Prop
  | .bleReadResolvingListSize => ¬ packet.Refused h.bleReadResolvingListSize 1
  | .bleReadMaximumDataLength => ¬ packet.Refused h.bleReadMaximumDataLength 8
  | .bleReadSuggestedDefaultDataLength => ¬ packet.Refused h.bleReadDefaultDataLength 2
  | .bleReadMaximumAdvertisingDataLength =>
      ¬ packet.Refused h.leReadMaximumAdvertisingDataLength 2
  | .bleReadNumberOfSupportedAdvertisingSets =>
      ¬ packet.Refused h.leReadNumberOfSupportedAdvertisingSets 1
  | .readLocalSupportedCodecs =>
      packet.Accepted h.readLocalSupportedCodecs 0 →
        packet.payload ≠ [] ∧
        (packet.payload.getD 0 0).toNat ≤ maxLocalSupportedCodecsSize ∧
        1 + (packet.payload.getD 0 0).toNat ≤ packet.payload.length
  | _ => True

/-! ### Reading -/

@[simp] theorem streamToUint8_cons (b : BitVec 8) (rest : List (BitVec 8)) :
    streamToUint8 (some (b :: rest)) = .ok (b.toNat, some rest) := rfl

@[simp] theorem streamToUint8_none : streamToUint8 none = .error .readNull := rfl

@[simp] theorem streamToUint16_cons (a b : BitVec 8) (rest : List (BitVec 8)) :
    streamToUint16 (some (a :: b :: rest)) = .ok (a.toNat + 256 * b.toNat, some rest) := rfl

@[simp] theorem length_bytesOf (n : Nat) (payload : List (BitVec 8)) :
    (bytesOf n payload).length = min n payload.length := by
  simp [bytesOf]

/-- The header says `NULL`, hands on the payload, or aborts. -/
theorem header_cases (packet : Packet) (expected : BitVec 16) (minimum : Nat) :
    (packet.Refused expected minimum ∧
      readCommandCompleteHeader packet expected minimum = .ok none) ∨
    (packet.Accepted expected minimum ∧
      readCommandCompleteHeader packet expected minimum = .ok (some packet.payload)) ∨
    (¬ packet.Refused expected minimum ∧ ¬ packet.Accepted expected minimum ∧
      readCommandCompleteHeader packet expected minimum = .error .check) := by
  obtain ⟨eventCode, params, fits⟩ := packet
  by_cases hevent : eventCode = commandCompleteEvt
  swap
  · left
    simp [Packet.Refused, readCommandCompleteHeader, hevent]
  by_cases hlen : 4 + minimum ≤ params.length
  swap
  · right
    right
    simp [Packet.Refused, Packet.Accepted, readCommandCompleteHeader, hevent, hlen]
  obtain ⟨a, b, c, d, rest, rfl⟩ : ∃ a b c d rest, params = a :: b :: c :: d :: rest := by
    match params with
    | a :: b :: c :: d :: rest => exact ⟨a, b, c, d, rest, rfl⟩
    | [] | [_] | [_, _] | [_, _, _] =>
        simp at hlen
        try omega
  simp only [Packet.Refused, Packet.Accepted, Packet.Matches, Packet.opcode, Packet.status,
    Packet.payload, readCommandCompleteHeader, hevent, hlen]
  by_cases hopcode : expected = noOpcodeChecking ∨ b.toNat + 256 * c.toNat = expected.toNat
  · by_cases hstatus : d.toNat = 0
    · cases hopcode with
      | inl hnone => simp [streamSkipUint8, ok_bind, hnone, hstatus, pure, Except.pure]
      | inr hsame => simp [streamSkipUint8, ok_bind, hsame, hstatus, pure, Except.pure]
    · cases hopcode with
      | inl hnone => simp [streamSkipUint8, ok_bind, hnone, hstatus, pure, Except.pure]
      | inr hsame => simp [streamSkipUint8, ok_bind, hsame, hstatus, pure, Except.pure]
  · obtain ⟨hchecked, hother⟩ := not_or.mp hopcode
    simp [streamSkipUint8, ok_bind, hchecked, hother]

theorem Packet.Accepted.success {packet : Packet} {expected : BitVec 16} {minimum : Nat}
    (h : packet.Accepted expected minimum) : packet.Success :=
  ⟨h.1, by have := h.2.1; omega, h.2.2.2⟩

theorem Packet.Accepted.not_refused {packet : Packet} {expected : BitVec 16} {minimum : Nat}
    (h : packet.Accepted expected minimum) : ¬ packet.Refused expected minimum := by
  intro hrefused
  cases hrefused with
  | inl hevent => exact hevent h.1
  | inr hstatus => exact hstatus.2.2 h.2.2.2

theorem Packet.Refused.not_success {packet : Packet} {expected : BitVec 16} {minimum : Nat}
    (h : packet.Refused expected minimum) : ¬ packet.Success := by
  intro hsuccess
  cases h with
  | inl hevent => exact hevent hsuccess.1
  | inr hstatus => exact hstatus.2.2 hsuccess.2.2

theorem Packet.Accepted.length_payload {packet : Packet} {expected : BitVec 16} {minimum : Nat}
    (h : packet.Accepted expected minimum) : minimum ≤ packet.payload.length := by
  have hlen := h.2.1
  simp [Packet.payload]
  omega

theorem streamToArray_eq {n : Nat} {payload : List (BitVec 8)} (h : n ≤ payload.length) :
    streamToArray n (some payload) = .ok (bytesOf n payload, some (payload.drop n)) := by
  induction n generalizing payload with
  | zero => simp [streamToArray, bytesOf]
  | succ n ih =>
      match payload, h with
      | b :: rest, h =>
          have hrest : n ≤ rest.length := by simpa using h
          simp [streamToArray, ok_bind, ih hrest, bytesOf]

theorem Field.read_eq {field : Field} {payload : List (BitVec 8)}
    (h : field.size ≤ payload.length) :
    field.read (some payload) = .ok (field.cells payload, some (payload.drop field.size)) := by
  cases field with
  | uint8 =>
      match payload, h with
      | b :: rest, _ => simp [Field.read, Field.cells, Field.size, bytesOf]
  | uint16 =>
      match payload, h with
      | a :: b :: rest, _ => simp [Field.read, Field.cells, Field.size]
  | skipUint8 => simp [Field.read, Field.cells, Field.size, streamSkipUint8]
  | array n =>
      apply streamToArray_eq
      exact h
  | bdaddr =>
      have hread : streamToArray rawAddressLength (some payload) =
          .ok (bytesOf rawAddressLength payload, some (payload.drop rawAddressLength)) :=
        streamToArray_eq h
      simp [Field.read, Field.cells, Field.size, hread]

theorem Field.length_cells {field : Field} {payload : List (BitVec 8)}
    (h : field.size ≤ payload.length) : (field.cells payload).length = field.width := by
  cases field <;> simp_all [Field.cells, Field.size, Field.width]

theorem readFields_eq {fields : List Field} {payload : List (BitVec 8)}
    (h : sizeOfFields fields ≤ payload.length) :
    readFields (some payload) fields =
      .ok (cellsOf payload fields, some (payload.drop (sizeOfFields fields))) := by
  induction fields generalizing payload with
  | nil => simp [readFields, cellsOf, sizeOfFields]
  | cons field fields ih =>
      have hsum : sizeOfFields (field :: fields) = field.size + sizeOfFields fields := by
        simp [sizeOfFields]
      have hfield : field.size ≤ payload.length := by omega
      have hrest : sizeOfFields fields ≤ (payload.drop field.size).length := by
        simp
        omega
      simp [readFields, ok_bind, cellsOf, Field.read_eq hfield, ih hrest, hsum]

theorem length_cellsOf {fields : List Field} {payload : List (BitVec 8)}
    (h : sizeOfFields fields ≤ payload.length) :
    (cellsOf payload fields).length = widthOfFields fields := by
  induction fields generalizing payload with
  | nil => simp [cellsOf, widthOfFields]
  | cons field fields ih =>
      have hsum : sizeOfFields (field :: fields) = field.size + sizeOfFields fields := by
        simp [sizeOfFields]
      have hfield : field.size ≤ payload.length := by omega
      have hrest : sizeOfFields fields ≤ (payload.drop field.size).length := by
        simp
        omega
      simp [cellsOf, Field.length_cells hfield, ih hrest, widthOfFields]

/-- A field that reads: the first one of a parser is never skipped. -/
theorem Field.read_none {field : Field} (h : field.width ≠ 0) :
    field.read none = .error .readNull := by
  cases field with
  | uint8 => rfl
  | uint16 => rfl
  | skipUint8 => simp [Field.width] at h
  | array n =>
      cases n with
      | zero => simp [Field.width] at h
      | succ n => rfl
  | bdaddr => rfl

/-! ### The outputs -/

theorem writeCells_all {out cells : List Nat} (h : cells.length = out.length) :
    writeCells out 0 cells = .ok cells := by
  simp [writeCells, h]

theorem writeCells_first (a b : Nat) (out : List Nat) :
    writeCells (b :: out) 0 [a] = .ok (a :: out) := by
  simp [writeCells]

theorem writeCells_second (a b c : Nat) (out : List Nat) :
    writeCells (a :: c :: out) 1 [b] = .ok (a :: b :: out) := by
  simp [writeCells]

theorem writeCells_eq {out cells : List Nat} {start : Nat}
    (h : start + cells.length ≤ out.length) :
    writeCells out start cells =
      .ok (out.take start ++ cells ++ out.drop (start + cells.length)) := by
  simp only [writeCells, h, if_true]

theorem writeCells_past {out cells : List Nat} {start : Nat}
    (h : out.length < start + cells.length) : writeCells out start cells = .error .writePast := by
  simp only [writeCells, Nat.not_le.mpr h, if_false]

theorem survivesAs_ok {packet : Packet} {out filled failed : List Nat} :
    SurvivesAs (.ok ⟨out, 1⟩) packet filled failed ↔
      out = if packet.Success then filled else failed := by
  simp [SurvivesAs]

theorem survivesAs_error {stop : Stop} {packet : Packet} {filled failed : List Nat} :
    SurvivesAs (.error stop) packet filled failed ↔ stop = .check := Iff.rfl

/-- A parser of fields is safe when it checks for `NULL`, else where the header has not said it. -/
theorem parseFields_survivesAs_iff {checked : Bool} {opcode : BitVec 16} {minimum : Nat}
    {field : Field} {fields : List Field} {packet : Packet} {out : List Nat}
    (hsize : sizeOfFields (field :: fields) ≤ minimum)
    (hroom : widthOfFields (field :: fields) = out.length) (hfirst : field.width ≠ 0) :
    SurvivesAs (parseFields checked opcode minimum (field :: fields) packet out) packet
        (cellsOf packet.payload (field :: fields)) out ↔
      checked = true ∨ ¬ packet.Refused opcode minimum := by
  obtain ⟨hrefused, heq⟩ | ⟨haccepted, heq⟩ | ⟨hrefused, -, heq⟩ :=
    header_cases packet opcode minimum
  · cases checked with
    | true => simp [parseFields, heq, ok_bind, SurvivesAs]
    | false =>
        simp [parseFields, heq, ok_bind, error_bind, SurvivesAs, readFields,
          Field.read_none hfirst, hrefused]
  · have hpayload : sizeOfFields (field :: fields) ≤ packet.payload.length :=
      hsize.trans haccepted.length_payload
    have hwrite : writeCells out 0 (cellsOf packet.payload (field :: fields)) =
        .ok (cellsOf packet.payload (field :: fields)) := by
      apply writeCells_all
      rw [length_cellsOf hpayload, hroom]
    simp [parseFields, heq, ok_bind, SurvivesAs, readFields_eq hpayload, hwrite,
      haccepted.not_refused, haccepted.success]
  · simp [parseFields, heq, error_bind, SurvivesAs, hrefused]

/-! ### The parsers with a shape of their own -/

theorem parseGenericCommandComplete_survivesAs (packet : Packet) (out : List Nat) :
    SurvivesAs (parseGenericCommandComplete packet out) packet out out := by
  obtain ⟨-, heq⟩ | ⟨-, heq⟩ | ⟨-, -, heq⟩ := header_cases packet noOpcodeChecking 0
  · simp [parseGenericCommandComplete, heq, ok_bind, survivesAs_ok, pure, Except.pure]
  · simp [parseGenericCommandComplete, heq, ok_bind, survivesAs_ok, pure, Except.pure]
  · simp [parseGenericCommandComplete, heq, survivesAs_error]

theorem parseBleReadOffloadFeaturesResponse_survivesAs (packet : Packet) {out : List Nat}
    (hroom : out.length = 1) :
    SurvivesAs (parseBleReadOffloadFeaturesResponse packet out) packet [1] [0] := by
  have hwrite (value : Nat) : writeCells out 0 [value] = .ok [value] := by
    apply writeCells_all
    simp [hroom]
  obtain ⟨hrefused, heq⟩ | ⟨haccepted, heq⟩ | ⟨-, -, heq⟩ :=
    header_cases packet noOpcodeChecking 0
  · simp [parseBleReadOffloadFeaturesResponse, heq, ok_bind, hwrite, SurvivesAs,
      hrefused.not_success]
  · simp [parseBleReadOffloadFeaturesResponse, heq, ok_bind, hwrite, SurvivesAs,
      haccepted.success]
  · simp [parseBleReadOffloadFeaturesResponse, heq, error_bind, SurvivesAs]

/-- A page of a number below the count has its place behind the two numbers. -/
theorem writeCells_page {page last number : Nat} {pages features : List Nat}
    (hpages : (page :: last :: pages).length = Parser.room .readLocalExtendedFeatures)
    (hfeatures : features.length = sizeofDeviceFeatures)
    (hnumber : number < maxFeaturesClassicPageCount) :
    writeCells (page :: last :: pages) (2 + sizeofDeviceFeatures * number) features =
      .ok ((page :: last :: pages).take (2 + sizeofDeviceFeatures * number) ++ features ++
        (page :: last :: pages).drop
          (2 + sizeofDeviceFeatures * number + sizeofDeviceFeatures)) := by
  have hinside : 2 + sizeofDeviceFeatures * number + features.length ≤
      (page :: last :: pages).length := by
    have hbound : number < 3 := hnumber
    rw [hfeatures, hpages, Parser.room, sizeofDeviceFeatures, maxFeaturesClassicPageCount]
    omega
  rw [writeCells_eq hinside, hfeatures]

theorem parseReadLocalExtendedFeaturesResponse_survives (h : Opcodes) (packet : Packet)
    {out : List Nat} (hroom : out.length = Parser.room .readLocalExtendedFeatures) :
    Parser.Survives .readLocalExtendedFeatures h packet out := by
  simp only [Parser.Survives, Parser.parse, Parser.filled, Parser.failed,
    parseReadLocalExtendedFeaturesResponse]
  obtain ⟨-, heq⟩ | ⟨haccepted, heq⟩ | ⟨-, -, heq⟩ :=
    header_cases packet h.readLocalExtFeatures (2 + sizeofDeviceFeatures)
  · simp [heq, ok_bind, survivesAs_error]
  · have hlen := haccepted.length_payload
    rw [heq]
    generalize packet.payload = payload at hlen
    obtain ⟨page, last, features, rfl⟩ : ∃ page last features,
        payload = page :: last :: features := by
      match payload, hlen with
      | page :: last :: features, _ => exact ⟨page, last, features, rfl⟩
      | [_], hlen => simp [sizeofDeviceFeatures] at hlen
    obtain ⟨page', last', pages, rfl⟩ : ∃ page' last' pages, out = page' :: last' :: pages := by
      match out, hroom with
      | page' :: last' :: pages, _ => exact ⟨page', last', pages, rfl⟩
    have hread : streamToArray sizeofDeviceFeatures (some features) =
        .ok (bytesOf sizeofDeviceFeatures features, some (features.drop sizeofDeviceFeatures)) := by
      apply streamToArray_eq
      simp at hlen
      omega
    have hcells : (bytesOf sizeofDeviceFeatures features).length = sizeofDeviceFeatures := by
      simp at hlen ⊢
      omega
    by_cases hpage : page.toNat < maxFeaturesClassicPageCount
    · have hwritten : (page.toNat :: last.toNat :: pages).length =
          Parser.room .readLocalExtendedFeatures := hroom
      simp only [streamToUint8_cons, ok_bind, writeCells_first, writeCells_second, hpage, hread,
        writeCells_page hwritten hcells hpage]
      simp [survivesAs_ok, haccepted.success, bytesOf, pure, Except.pure, Nat.add_comm 2,
        Nat.add_right_comm _ 2]
    · simp only [streamToUint8_cons, ok_bind, writeCells_first, writeCells_second, hpage,
        not_false_eq_true, if_true, reduceCtorEq, if_false, survivesAs_error]
  · simp [heq, error_bind, survivesAs_error]

theorem storeCodecs_eq {n position : Nat} {rest : List (BitVec 8)} {out : List Nat}
    (hrest : n ≤ rest.length) (hout : position + n ≤ out.length) :
    storeCodecs n position (some rest) out =
      .ok (out.take position ++ bytesOf n rest ++ out.drop (position + n)) := by
  induction n generalizing position rest out with
  | zero => simp [storeCodecs, bytesOf]
  | succ n ih =>
      match rest, hrest with
      | codec :: rest, hrest =>
          have hinside : position + [codec.toNat].length ≤ out.length := by
            simp
            omega
          have hmore : n ≤ rest.length := by simpa using hrest
          simp only [storeCodecs, streamToUint8_cons, ok_bind, writeCells_eq hinside]
          have hlength : (out.take position ++ [codec.toNat]).length = position + 1 := by
            simp
            omega
          have hdrop : (out.take position ++ [codec.toNat] ++ out.drop (position + 1)).drop
              (position + 1 + n) = out.drop (position + (n + 1)) := by
            rw [← hlength, List.drop_length_add_append, List.drop_drop, hlength]
            congr 1
            omega
          rw [ih hmore (by simp; omega), List.take_left' hlength, List.length_singleton, hdrop]
          simp [bytesOf]

/-- The loop goes on to the number, whatever room there is. -/
theorem storeCodecs_stops {n position : Nat} {rest : List (BitVec 8)} {out : List Nat}
    (hposition : position ≤ out.length) (h : rest.length < n ∨ out.length < position + n) :
    ∃ stop, storeCodecs n position (some rest) out = .error stop ∧ stop ≠ .check := by
  induction n generalizing position rest out with
  | zero => omega
  | succ n ih =>
      match rest, h with
      | [], _ => exact ⟨.readPast, rfl, nofun⟩
      | codec :: rest, h =>
          by_cases hinside : position + [codec.toNat].length ≤ out.length
          · simp only [storeCodecs, streamToUint8_cons, ok_bind, writeCells_eq hinside]
            apply ih
            · simp at hinside ⊢
              omega
            · simp at h hinside ⊢
              omega
          · refine ⟨.writePast, ?_, nofun⟩
            simp only [storeCodecs, streamToUint8_cons, ok_bind,
              writeCells_past (Nat.not_le.mp hinside), error_bind]

theorem parseReadLocalSupportedCodecsResponse_survives_iff (h : Opcodes) (packet : Packet)
    {out : List Nat} (hroom : out.length = Parser.room .readLocalSupportedCodecs) :
    Parser.Survives .readLocalSupportedCodecs h packet out ↔
      Parser.Robust h packet .readLocalSupportedCodecs := by
  simp only [Parser.Survives, Parser.parse, Parser.filled, Parser.failed, Parser.Robust,
    parseReadLocalSupportedCodecsResponse]
  obtain ⟨hrefused, heq⟩ | ⟨haccepted, heq⟩ | ⟨-, haccepted, heq⟩ :=
    header_cases packet h.readLocalSupportedCodecs 0
  · have haccepted : ¬ packet.Accepted h.readLocalSupportedCodecs 0 := fun haccepted =>
      haccepted.not_refused hrefused
    simp [heq, ok_bind, haccepted, survivesAs_ok, hrefused.not_success, pure, Except.pure]
  · rw [heq]
    simp only [haccepted, true_implies]
    generalize packet.payload = payload
    match payload with
    | [] => simp [ok_bind, streamToUint8, error_bind, survivesAs_error]
    | number :: rest =>
        obtain ⟨first, codecs, rfl⟩ : ∃ first codecs, out = first :: codecs := by
          match out, hroom with
          | first :: codecs, _ => exact ⟨first, codecs, rfl⟩
        have hroom : (first :: codecs).length = 1 + maxLocalSupportedCodecsSize := hroom
        simp only [ok_bind, streamToUint8_cons, writeCells_first, reduceCtorEq, if_false]
        by_cases hfits : number.toNat ≤ rest.length ∧ 1 + number.toNat ≤ (first :: codecs).length
        · have hstore : storeCodecs number.toNat 1 (some rest) (number.toNat :: codecs) = _ :=
            storeCodecs_eq hfits.1 hfits.2
          rw [hstore]
          have hnumber : number.toNat ≤ maxLocalSupportedCodecsSize := by
            have hout := hfits.2
            omega
          simp [ok_bind, survivesAs_ok, haccepted.success, pure, Except.pure, hnumber, hfits.1,
            bytesOf, Nat.add_comm 1]
        · have hshort : rest.length < number.toNat ∨
              (number.toNat :: codecs).length < 1 + number.toNat := by
            simp only [List.length_cons] at hfits ⊢
            omega
          obtain ⟨stop, hstop, hcheck⟩ := storeCodecs_stops (by simp) hshort
          rw [hstop]
          simp [survivesAs_error, hcheck]
          simp only [List.length_cons] at hshort
          omega
  · simp [heq, haccepted, error_bind, survivesAs_error]

/-! ### The result -/

/-- The parsers that are made of fields. -/
theorem survives_iff_of_parseFields {p : Parser} {h : Opcodes} {checked : Bool}
    {opcode : BitVec 16} {minimum : Nat} {field : Field} {fields : List Field} {packet : Packet}
    {out : List Nat} (hparse : p.parse h = parseFields checked opcode minimum (field :: fields))
    (hfilled : p.filled packet.payload out = cellsOf packet.payload (field :: fields))
    (hfailed : p.failed out = out) (hsize : sizeOfFields (field :: fields) ≤ minimum)
    (hwidth : p.room = widthOfFields (field :: fields)) (hfirst : field.width ≠ 0)
    (hroom : out.length = p.room) :
    p.Survives h packet out ↔ checked = true ∨ ¬ packet.Refused opcode minimum := by
  rw [Parser.Survives, hparse, hfilled, hfailed]
  apply parseFields_survivesAs_iff hsize _ hfirst
  rw [hroom, hwidth]

/-- A parser of the start-up survives a reply exactly when it checks for `NULL` itself or was not
given it, and a list of codecs has the length it says. -/
theorem survives_iff (h : Opcodes) (p : Parser) (packet : Packet) (out : List Nat)
    (hroom : out.length = p.room) : p.Survives h packet out ↔ p.Robust h packet := by
  cases p with
  | genericCommandComplete =>
      simp [Parser.Robust, Parser.Survives, Parser.parse, Parser.filled, Parser.failed,
        parseGenericCommandComplete_survivesAs]
  | readLocalExtendedFeatures =>
      simp [Parser.Robust, parseReadLocalExtendedFeaturesResponse_survives h packet hroom]
  | bleReadOffloadFeatures =>
      simp [Parser.Robust, Parser.Survives, Parser.parse, Parser.filled, Parser.failed,
        parseBleReadOffloadFeaturesResponse_survivesAs packet hroom]
  | readLocalSupportedCodecs =>
      exact parseReadLocalSupportedCodecsResponse_survives_iff h packet hroom
  | readBufferSize | readLocalVersionInfo | readBdAddr | readLocalSupportedCommands
  | bleReadWhiteListSize | bleReadBufferSize | bleReadSupportedStates
  | bleReadLocalSupportedFeatures | bleReadResolvingListSize | bleReadMaximumDataLength
  | bleReadSuggestedDefaultDataLength | bleReadMaximumAdvertisingDataLength
  | bleReadNumberOfSupportedAdvertisingSets =>
      apply Iff.trans (survives_iff_of_parseFields rfl ?_ rfl ?_ rfl ?_ hroom)
      · simp [Parser.Robust]
      · simp [Parser.filled, cellsOf, Field.cells]
      · decide
      · decide

/-- The opcodes of the Bluetooth specification. -/
def specifiedOpcodes : Opcodes where
  readBufferSize := 0x1005
  readLocalVersionInfo := 0x1001
  readLocalSupportedCodecs := 0x100B
  readBdAddr := 0x1009
  readLocalSupportedCmds := 0x1002
  readLocalExtFeatures := 0x1004
  bleReadWhiteListSize := 0x200F
  bleReadBufferSize := 0x2002
  bleReadSupportedStates := 0x201C
  bleReadLocalSptFeat := 0x2003
  bleReadResolvingListSize := 0x202A
  bleReadDefaultDataLength := 0x2023
  bleReadMaximumDataLength := 0x202F
  leReadMaximumAdvertisingDataLength := 0x203A
  leReadNumberOfSupportedAdvertisingSets := 0x203B

/-- A Command Status event for Read Resolving List Size: the status, a credit, the opcode. -/
def resolvingListStatus : Packet where
  eventCode := commandStatusEvt
  params := [0x01, 0x01, 0x2A, 0x20]
  fits := by decide

/-- The reply to Read Resolving List Size that its parser expects. -/
def resolvingListComplete : Packet where
  eventCode := commandCompleteEvt
  params := [0x01, 0x2A, 0x20, 0x00, 0x10]
  fits := by decide

theorem survives_iff_resolvingListComplete :
    [0].length = Parser.bleReadResolvingListSize.room ∧
    (Parser.bleReadResolvingListSize.Survives specifiedOpcodes resolvingListComplete [0] ↔
      Parser.bleReadResolvingListSize.Robust specifiedOpcodes resolvingListComplete) :=
  ⟨rfl, survives_iff specifiedOpcodes .bleReadResolvingListSize resolvingListComplete [0] rfl⟩

/-- The parser of the resolving list size reads through the null pointer it is given for a Command
Status event. -/
theorem not_survives_resolvingListStatus :
    ¬ ∀ (h : Opcodes) (p : Parser) (packet : Packet) (out : List Nat),
      out.length = p.room → p.Survives h packet out := by
  intro hall
  have hread : Parser.bleReadResolvingListSize.parse specifiedOpcodes resolvingListStatus [0] =
      .error .readNull := by
    decide
  have hsurvives := hall specifiedOpcodes .bleReadResolvingListSize resolvingListStatus [0] rfl
  rw [Parser.Survives, hread, survivesAs_error] at hsurvives
  exact nomatch hsurvives

end LineageA1000.Hci
