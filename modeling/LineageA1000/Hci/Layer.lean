import LineageA1000.Lib.Run
import Mathlib.Data.List.Basic

/-!
# The HCI command layer

`hci_layer.cc` keeps an entry for every command it is given. An entry waits for a credit in
`command_queue`, then as a task of the HCI thread, then in `commands_pending_response`, until a
Command Complete or a Command Status event takes it out. Three threads work on it: the callers of
`transmit_command` and `transmit_command_futured`, the HCI thread, and the thread that brings the
controller's packets to `filter_incoming_event`. A step below is what one of them does under one
lock, so `filter_incoming_event` takes several, and `shut_down` two.

The state also records what became of every packet, command buffer, future and entry. The entry,
the buffer and the future of one call bear the number of the call. The HCI thread is code outside
this layer: a task it was given and has not run when it shuts down is lost, whatever number of tasks
it still runs before. The timers and the firmware log own nothing and are left out.
-/

namespace LineageA1000.Hci

/-- The bytes a stream pointer walks over. No length is checked on the way. -/
abbrev Stream := Nat → BitVec 8

def Stream.uint8 (stream : Stream) (i : Nat) : BitVec 8 := stream i

def Stream.uint16 (stream : Stream) (i : Nat) : BitVec 16 := stream (i + 1) ++ stream i

def commandCompleteEvt : BitVec 8 := 0x0E

def commandStatusEvt : BitVec 8 := 0x0F

def vendorSpecificEvt : BitVec 8 := 0xFF

def vseSubcodeDebugInfoSubEvt : BitVec 8 := 0x57

def grpVendorSpecific : BitVec 16 := 0xFC00

/-! ### Entries -/

/-- A `waiting_command_t`. Callbacks and the context are opaque to the layer. An entry either has a
future, that of its own call, or is left to callbacks. -/
structure WaitingCommand where
  opcode : BitVec 16
  completeFuture : Option Nat
  completeCallback : Option Nat
  statusCallback : Option Nat
  context : Nat
  command : Nat
  futured : completeFuture = none ∨
    completeFuture = some command ∧ completeCallback = none ∧ statusCallback = none
deriving DecidableEq

def isVendorSpecific (opcode : BitVec 16) : Bool :=
  opcode &&& grpVendorSpecific == grpVendorSpecific

/-- `get_waiting_command`: the first entry of the opcode, else the first of any vendor opcode when
the event's is one; with the list it was removed from. -/
def getWaitingCommand (opcode : BitVec 16) (pending : List WaitingCommand) :
    Option (WaitingCommand × List WaitingCommand) :=
  match pending.find? fun entry => entry.opcode == opcode with
  | some entry => some (entry, pending.erase entry)
  | none =>
      match pending.find? fun entry => entry.opcode != opcode &&
          (isVendorSpecific entry.opcode && isVendorSpecific opcode) with
      | some entry => some (entry, pending.erase entry)
      | none => none

/-! ### The state -/

inductive ResponseCode where
  | complete
  | status
deriving DecidableEq

/-- The locals of `filter_incoming_event` once it has looked for the entry. -/
structure Response where
  packet : Nat
  eventCode : ResponseCode
  status : BitVec 8
  credits : BitVec 8
  waitEntry : Option WaitingCommand
deriving DecidableEq

/-- Where the thread that brings packets stands in `filter_incoming_event`: before
`process_command_credits`, in its loop and holding the credits' mutex, or behind it. -/
inductive Filtering where
  | idle
  | matched (response : Response)
  | crediting (response : Response)
  | credited (response : Response)
deriving DecidableEq

def Filtering.response : Filtering → Option Response
  | .idle => none
  | .matched response => some response
  | .crediting response => some response
  | .credited response => some response

def Filtering.isCrediting : Filtering → Bool
  | .crediting _ => true
  | _ => false

inductive PacketOwner where
  | freed
  | completeCallback (callback context : Nat)
  | future (future : Nat)
  | upwards
deriving DecidableEq

inductive CommandOwner where
  | freed
  | statusCallback (callback context : Nat) (status : BitVec 8)
deriving DecidableEq

structure Layer where
  running : Bool
  commandCredits : Int
  commandQueue : List WaitingCommand
  /-- The entries of the `event_command_ready` tasks the HCI thread has not run. -/
  posted : List WaitingCommand
  commandsPendingResponse : Option (List WaitingCommand)
  filtering : Filtering
  received : Nat
  transmitted : List WaitingCommand
  sent : List Nat
  packets : List (Nat × PacketOwner)
  commands : List (Nat × CommandOwner)
  ready : List (Nat × Nat)
  freed : List WaitingCommand
deriving DecidableEq

/-- The layer before its first start-up. -/
def start : Layer where
  running := false
  commandCredits := 1
  commandQueue := []
  posted := []
  commandsPendingResponse := none
  filtering := .idle
  received := 0
  transmitted := []
  sent := []
  packets := []
  commands := []
  ready := []
  freed := []

def Layer.waiting (s : Layer) : List WaitingCommand := s.commandsPendingResponse.getD []

/-- The entry that `filter_incoming_event` has taken out of the list. -/
def Layer.held (s : Layer) : List WaitingCommand :=
  match s.filtering.response with
  | none => []
  | some response => response.waitEntry.toList

/-- The mutex of the credits is free. -/
def Layer.creditsFree (s : Layer) : Prop := s.filtering.isCrediting = false

instance (s : Layer) : Decidable s.creditsFree :=
  inferInstanceAs (Decidable (s.filtering.isCrediting = false))

def freePacket (packet : Nat) (s : Layer) : Layer :=
  { s with packets := s.packets ++ [(packet, .freed)] }

def freeCommand (command : Nat) (s : Layer) : Layer :=
  { s with commands := s.commands ++ [(command, .freed)] }

def freeEntry (entry : WaitingCommand) (s : Layer) : Layer :=
  { s with freed := s.freed ++ [entry] }

/-- `future_ready`: the packet belongs to the future from here on. -/
def futureReady (future packet : Nat) (s : Layer) : Layer :=
  { s with
    ready := s.ready ++ [(future, packet)]
    packets := s.packets ++ [(packet, .future future)] }

/-! ### Transmitting -/

/-- `DoInThread` of `event_command_ready`. It fails when the thread is not running. -/
def doInThread (entry : WaitingCommand) (s : Layer) : Option Layer :=
  if s.running then some { s with posted := s.posted ++ [entry] } else none

def enqueueCommand (entry : WaitingCommand) (s : Layer) : Layer :=
  if s.commandCredits > 0 then
    match doInThread entry s with
    | none => freeEntry entry (freeCommand entry.command s)
    | some s => { s with commandCredits := s.commandCredits - 1 }
  else { s with commandQueue := s.commandQueue ++ [entry] }

def transmitCommand (stream : Stream) (completeCallback statusCallback : Option Nat)
    (context : Nat) (s : Layer) : Layer :=
  let entry : WaitingCommand :=
    { opcode := stream.uint16 0
      completeFuture := none
      completeCallback := completeCallback
      statusCallback := statusCallback
      context := context
      command := s.transmitted.length
      futured := .inl rfl }
  enqueueCommand entry { s with transmitted := s.transmitted ++ [entry] }

def transmitCommandFutured (stream : Stream) (s : Layer) : Layer :=
  let entry : WaitingCommand :=
    { opcode := stream.uint16 0
      completeFuture := some s.transmitted.length
      completeCallback := none
      statusCallback := none
      context := 0
      command := s.transmitted.length
      futured := .inr ⟨rfl, rfl, rfl⟩ }
  enqueueCommand entry { s with transmitted := s.transmitted ++ [entry] }

/-- The HCI thread runs its next task, `event_command_ready`. -/
def eventCommandReady (s : Layer) : Layer :=
  match s.posted, s.commandsPendingResponse with
  | entry :: posted, some pending =>
      { s with
        posted := posted
        commandsPendingResponse := some (pending ++ [entry])
        sent := s.sent ++ [entry.command] }
  | _, _ => s

/-! ### Receiving -/

/-- `filter_incoming_event` finds the entry an event is about. -/
def findEntry (eventCode : ResponseCode) (status credits : BitVec 8) (opcode : BitVec 16)
    (pending : List WaitingCommand) (s : Layer) : Layer :=
  match getWaitingCommand opcode pending with
  | some (entry, rest) =>
      { s with
        commandsPendingResponse := some rest
        filtering := .matched ⟨s.received, eventCode, status, credits, some entry⟩
        received := s.received + 1 }
  | none =>
      { s with
        filtering := .matched ⟨s.received, eventCode, status, credits, none⟩
        received := s.received + 1 }

/-- `hci_event_received` with `filter_incoming_event` up to the entry. The events that are neither
Command Complete nor Command Status are done with at once. The HAL is closed, and brings nothing,
while there is no list of pending commands. -/
def hciEventReceived (stream : Stream) (s : Layer) : Layer :=
  match s.filtering, s.commandsPendingResponse with
  | .idle, some pending =>
      let eventCode := stream.uint8 0
      if eventCode = commandCompleteEvt then
        findEntry .complete 0 (stream.uint8 2) (stream.uint16 3) pending s
      else if eventCode = commandStatusEvt then
        findEntry .status (stream.uint8 2) (stream.uint8 3) (stream.uint16 4) pending s
      else if eventCode = vendorSpecificEvt ∧ stream.uint8 2 = vseSubcodeDebugInfoSubEvt then
        freePacket s.received { s with received := s.received + 1 }
      else
        { s with
          packets := s.packets ++ [(s.received, .upwards)]
          received := s.received + 1 }
  | _, _ => s

/-- `process_command_credits` up to its loop. -/
def processCommandCredits (response : Response) (s : Layer) : Layer :=
  if s.running then
    { s with
      commandCredits := response.credits.toNat - s.waiting.length
      filtering := .crediting response }
  else { s with filtering := .credited response }

/-- One round of the loop of `process_command_credits`. An entry that `DoInThread` refuses is popped
all the same. -/
def creditRound (response : Response) (s : Layer) : Layer :=
  match s.commandQueue with
  | entry :: queue =>
      if s.commandCredits > 0 then
        { (doInThread entry s).getD s with
          commandQueue := queue
          commandCredits := s.commandCredits - 1 }
      else { s with filtering := .credited response }
  | [] => { s with filtering := .credited response }

/-- The entry's callback or future gets the event. The second value is `status_given_to_future`. -/
def deliver (response : Response) (entry : WaitingCommand) (s : Layer) : Layer × Bool :=
  match response.eventCode with
  | .complete =>
      match entry.completeCallback, entry.completeFuture with
      | some callback, _ =>
          ({ s with
            packets := s.packets ++ [(response.packet, .completeCallback callback entry.context)] },
            false)
      | none, some future => (futureReady future response.packet s, false)
      | none, none => (s, false)
  | .status =>
      match entry.statusCallback, entry.completeFuture with
      | some callback, _ =>
          ({ s with
            commands := s.commands ++
              [(entry.command, .statusCallback callback entry.context response.status)] }, false)
      | none, some future => (futureReady future response.packet s, true)
      | none, none => (s, false)

/-- The end of `filter_incoming_event`, label `intercepted`. -/
def intercepted (response : Response) (s : Layer) : Layer :=
  match response.waitEntry with
  | some entry =>
      let (s, statusGivenToFuture) := deliver response entry s
      let s :=
        if (response.eventCode = .status ∧ statusGivenToFuture = false) ∨
            (entry.completeCallback = none ∧ entry.completeFuture = none) then
          freePacket response.packet s
        else s
      let s :=
        if response.eventCode = .complete ∨ entry.statusCallback = none then
          freeCommand entry.command s
        else s
      freeEntry entry s
  | none => freePacket response.packet s

/-- The thread that brings packets goes on with `filter_incoming_event`. -/
def filterIncomingEvent (s : Layer) : Layer :=
  match s.filtering with
  | .idle => s
  | .matched response => processCommandCredits response s
  | .crediting response => creditRound response s
  | .credited response => intercepted response { s with filtering := .idle }

/-! ### The module's life -/

def hciModuleStartUp (s : Layer) : Layer :=
  if s.running = false ∧ s.commandsPendingResponse = none then
    { s with commandCredits := 1, running := true, commandsPendingResponse := some [] }
  else s

/-- `hci_module_shut_down`, first part: the HCI thread ends. -/
def threadShutDown (s : Layer) : Layer := { s with running := false, posted := [] }

/-- `hci_module_shut_down`, second part: the HAL is closed and the list is freed, its entries are
not. -/
def closeAndFreeList (s : Layer) : Layer :=
  if s.running = false then { s with commandsPendingResponse := none } else s

inductive Step where
  | transmitCommand (stream : Stream) (completeCallback statusCallback : Option Nat)
      (context : Nat)
  | transmitCommandFutured (stream : Stream)
  | eventCommandReady
  | hciEventReceived (stream : Stream)
  | filterIncomingEvent
  | startUp
  | threadShutDown
  | closeAndFreeList

/-- What one step does. A caller that has to wait for the credits' mutex has not made its call
yet. -/
def step (s : Layer) : Step → Layer
  | .transmitCommand stream completeCallback statusCallback context =>
      if s.creditsFree then transmitCommand stream completeCallback statusCallback context s else s
  | .transmitCommandFutured stream =>
      if s.creditsFree then transmitCommandFutured stream s else s
  | .eventCommandReady => eventCommandReady s
  | .hciEventReceived stream => hciEventReceived stream s
  | .filterIncomingEvent => filterIncomingEvent s
  | .startUp => hciModuleStartUp s
  | .threadShutDown => threadShutDown s
  | .closeAndFreeList => closeAndFreeList s

end LineageA1000.Hci
