import LineageA1000.Hci.Layer
import Mathlib.Data.List.Nodup
import Mathlib.Data.List.Count

/-!
# One owner for every packet, command, future and entry

Whatever the order of commands, events and credits, a packet gets one owner, and what becomes of an
entry is settled at the place where its memory is freed: there its command buffer is freed or given
to the status callback, and its future is completed. The one place where this fails, and the
places where an entry is forgotten without being freed, belong to a thread that does not run. They
are what `Careful` excludes, and nothing else has to be excluded.
-/

namespace LineageA1000.Hci

/-! ### The accounts -/

def owners (s : Layer) (packet : Nat) : Nat := (s.packets.map Prod.fst).count packet

/-- The packet is still with `filter_incoming_event`. -/
def inHand (s : Layer) (packet : Nat) : Nat :=
  if s.filtering.response.map Response.packet = some packet then 1 else 0

def disposals (s : Layer) (command : Nat) : Nat := (s.commands.map Prod.fst).count command

def completions (s : Layer) (future : Nat) : Nat := (s.ready.map Prod.fst).count future

/-- How many places of the layer still hold the entry. -/
def inPlay (s : Layer) (entry : WaitingCommand) : Nat :=
  s.commandQueue.count entry + s.posted.count entry + s.waiting.count entry + s.held.count entry

/-- Every packet, command buffer, future and entry is accounted for. While there is no list of
pending commands, before a start-up and after a shut-down, only the event being filtered may still
own a command. -/
structure Accounted (s : Layer) : Prop where
  packets : ∀ p < s.received, owners s p + inHand s p = 1
  commands : ∀ w ∈ s.transmitted, disposals s w.command + inPlay s w = 1
  shut : s.commandsPendingResponse = none →
    ∀ w ∈ s.transmitted, disposals s w.command + s.held.count w = 1
  futures : ∀ f, completions s f ≤ 1
  entries : ∀ w ∈ s.transmitted, s.freed.count w + inPlay s w ≤ 1
  waiters : ∀ w ∈ s.transmitted, inPlay s w = 0 →
    ∀ f, w.completeFuture = some f → completions s f = 1

/-- The step does not lose an entry. A futured call with a credit finds the thread running, a call
without a credit finds the layer up, a queued command that gets its credit finds the thread running,
and at shut-down no task, no pending and no queued command is left. -/
def Careful (s : Layer) : Step → Prop
  | .transmitCommand .. =>
      s.creditsFree → s.commandCredits ≤ 0 → s.commandsPendingResponse ≠ none
  | .transmitCommandFutured _ =>
      s.creditsFree → (s.commandCredits ≤ 0 → s.commandsPendingResponse ≠ none) ∧
        (0 < s.commandCredits → s.running = true)
  | .filterIncomingEvent =>
      s.filtering.isCrediting = true → 0 < s.commandCredits → s.commandQueue ≠ [] →
        s.running = true
  | .threadShutDown => s.posted = []
  | .closeAndFreeList => s.running = false → s.waiting = [] ∧ s.commandQueue = []
  | _ => True

instance (s : Layer) (e : Step) : Decidable (Careful s e) := by
  cases e <;> unfold Careful <;> infer_instance

/-! ### The invariant -/

/-- The invariant of careful runs. An entry is in one of the layer's places or freed, and what
became of buffers and futures is what became of the freed entries. -/
structure Books (s : Layer) : Prop where
  calls : s.transmitted.map WaitingCommand.command = List.range s.transmitted.length
  entries : ∀ w, s.transmitted.count w = inPlay s w + s.freed.count w
  commands : s.commands.map Prod.fst = s.freed.map WaitingCommand.command
  ready : s.ready.map Prod.fst = s.freed.filterMap WaitingCommand.completeFuture
  packets : ∀ p, owners s p + inHand s p = if p < s.received then 1 else 0
  stopped : s.running = false → s.posted = []
  closed : s.commandsPendingResponse = none → s.running = false ∧ s.commandQueue = []

/-- The future of an entry bears the number of its call. -/
theorem command_eq_future {w : WaitingCommand} {f : Nat} (hw : w.completeFuture = some f) :
    w.command = f := by
  rcases w.futured with hnone | ⟨hsome, -, -⟩
  · rw [hnone] at hw
    cases hw
  · rw [hsome] at hw
    exact Option.some.inj hw

namespace Books

variable {s : Layer} (h : Books s)
include h

theorem nodup_commands : (s.transmitted.map WaitingCommand.command).Nodup := by
  rw [h.calls]
  exact List.nodup_range

theorem command_injective {v w : WaitingCommand} (hv : v ∈ s.transmitted)
    (hw : w ∈ s.transmitted) (hcommand : v.command = w.command) : v = w :=
  List.inj_on_of_nodup_map h.nodup_commands hv hw hcommand

theorem count_transmitted {w : WaitingCommand} (hw : w ∈ s.transmitted) :
    s.transmitted.count w = 1 :=
  List.count_eq_one_of_mem (List.Nodup.of_map _ h.nodup_commands) hw

theorem transmitted_of_pos {w : WaitingCommand} (hw : 0 < inPlay s w + s.freed.count w) :
    w ∈ s.transmitted := by
  rw [← h.entries w] at hw
  exact List.count_pos_iff.1 hw

theorem transmitted_of_freed {w : WaitingCommand} (hw : w ∈ s.freed) : w ∈ s.transmitted := by
  apply h.transmitted_of_pos
  have hpos : 0 < s.freed.count w := List.count_pos_iff.2 hw
  omega

/-- An entry in one of the layer's places is in no other and not freed. -/
theorem inPlay_eq_one {w : WaitingCommand} (hw : 0 < inPlay s w) :
    inPlay s w = 1 ∧ s.freed.count w = 0 := by
  have hmem : w ∈ s.transmitted := h.transmitted_of_pos (by omega)
  have hone := h.count_transmitted hmem
  rw [h.entries w] at hone
  omega

/-- The buffer of an entry is disposed of when the entry is freed. -/
theorem disposals_eq {w : WaitingCommand} (hw : w ∈ s.transmitted) :
    disposals s w.command = s.freed.count w := by
  unfold disposals
  rw [h.commands, List.count, List.countP_map, List.count]
  apply List.countP_congr
  intro v hv
  simp only [Function.comp_apply, beq_iff_eq]
  exact ⟨h.command_injective (h.transmitted_of_freed hv) hw, fun heq => heq ▸ rfl⟩

/-- A future is completed when its entry is freed. -/
theorem completions_eq {w : WaitingCommand} (hw : w ∈ s.transmitted) {f : Nat}
    (hf : w.completeFuture = some f) : completions s f = s.freed.count w := by
  unfold completions
  rw [h.ready, List.count_filterMap, List.count]
  apply List.countP_congr
  intro v hv
  simp only [beq_iff_eq]
  constructor
  · intro hvf
    exact h.command_injective (h.transmitted_of_freed hv) hw
      ((command_eq_future hvf).trans (command_eq_future hf).symm)
  · intro heq
    rw [heq, hf]

theorem completions_le_one (f : Nat) : completions s f ≤ 1 := by
  by_cases hex : ∃ w ∈ s.freed, w.completeFuture = some f
  · obtain ⟨w, hw, hf⟩ := hex
    have hmem := h.transmitted_of_freed hw
    have hone := h.count_transmitted hmem
    rw [h.entries w] at hone
    rw [h.completions_eq hmem hf]
    omega
  · have hnot : f ∉ s.ready.map Prod.fst := by
      rw [h.ready, List.mem_filterMap]
      exact hex
    exact (List.count_eq_zero_of_not_mem hnot).trans_le (Nat.zero_le 1)

theorem accounted : Accounted s := by
  have hsum : ∀ w ∈ s.transmitted, inPlay s w + s.freed.count w = 1 := by
    intro w hw
    rw [← h.entries w]
    exact h.count_transmitted hw
  refine ⟨fun p hp => ?_, fun w hw => ?_, fun hnone w hw => ?_, h.completions_le_one,
    fun w hw => ?_, fun w hw hplay f hf => ?_⟩
  · rw [h.packets p, if_pos hp]
  · rw [h.disposals_eq hw, Nat.add_comm]
    exact hsum w hw
  · obtain ⟨hstop, hqueue⟩ := h.closed hnone
    have hheld : inPlay s w = s.held.count w := by
      unfold inPlay Layer.waiting
      rw [hqueue, h.stopped hstop, hnone]
      simp
    rw [h.disposals_eq hw, ← hheld, Nat.add_comm]
    exact hsum w hw
  · rw [Nat.add_comm]
    exact (hsum w hw).le
  · rw [h.completions_eq hw hf]
    have hone := hsum w hw
    omega

end Books

theorem books_start : Books start := by
  refine ⟨rfl, fun w => rfl, rfl, rfl, fun p => rfl, fun _ => rfl, fun _ => ⟨rfl, rfl⟩⟩

/-! ### What the steps keep -/

theorem Books.enqueue {s : Layer} (h : Books s) {w : WaitingCommand}
    (hcommand : w.command = s.transmitted.length)
    (hup : s.commandCredits ≤ 0 → s.commandsPendingResponse ≠ none)
    (hrun : 0 < s.commandCredits → s.running = true ∨ w.completeFuture = none) :
    Books (enqueueCommand w { s with transmitted := s.transmitted ++ [w] }) := by
  have hcalls : (s.transmitted ++ [w]).map WaitingCommand.command =
      List.range (s.transmitted ++ [w]).length := by
    rw [List.map_append, h.calls, List.length_append, List.length_singleton, List.range_succ,
      List.map_singleton, hcommand]
  unfold enqueueCommand
  by_cases hcredits : s.commandCredits > 0
  · rw [if_pos hcredits]
    cases hrunning : s.running with
    | true =>
        simp only [doInThread, if_true]
        refine ⟨hcalls, fun x => ?_, h.commands, h.ready, h.packets, fun hstop => ?_,
          fun hnone => ?_⟩
        · have hx := h.entries x
          simp only [inPlay, Layer.waiting, Layer.held, List.count_append] at hx ⊢
          omega
        · cases hstop
        · obtain ⟨hstop, -⟩ := h.closed hnone
          rw [hrunning] at hstop
          cases hstop
    | false =>
        have hfuture : w.completeFuture = none := by
          rcases hrun hcredits with hon | hnone
          · rw [hrunning] at hon
            cases hon
          · exact hnone
        simp only [doInThread, Bool.false_eq_true, if_false, freeEntry, freeCommand]
        refine ⟨hcalls, fun x => ?_, ?_, ?_, h.packets, fun _ => h.stopped hrunning,
          fun hnone => ⟨rfl, (h.closed hnone).2⟩⟩
        · have hx := h.entries x
          simp only [inPlay, Layer.waiting, Layer.held, List.count_append] at hx ⊢
          omega
        · rw [List.map_append, List.map_append, h.commands]
          rfl
        · rw [List.filterMap_append, h.ready]
          simp [hfuture]
  · rw [if_neg hcredits]
    refine ⟨hcalls, fun x => ?_, h.commands, h.ready, h.packets, h.stopped, fun hnone => ?_⟩
    · have hx := h.entries x
      simp only [inPlay, Layer.waiting, Layer.held, List.count_append] at hx ⊢
      omega
    · exact absurd hnone (hup (by omega))

theorem Books.eventCommandReady {s : Layer} (h : Books s) : Books (eventCommandReady s) := by
  unfold Hci.eventCommandReady
  split
  case h_1 entry posted pending hposted hpending =>
    refine ⟨h.calls, fun x => ?_, h.commands, h.ready, h.packets, fun hstop => ?_, nofun⟩
    · have hx := h.entries x
      simp only [inPlay, Layer.waiting, Layer.held, hposted, hpending, Option.getD_some,
        List.count_append, List.count_cons, List.count_nil] at hx ⊢
      omega
    · have hnil := h.stopped hstop
      rw [hposted] at hnil
      cases hnil
  case h_2 => exact h

/-- `get_waiting_command` takes one entry out of the list. -/
theorem count_getWaitingCommand {opcode : BitVec 16} {pending rest : List WaitingCommand}
    {entry : WaitingCommand} (hget : getWaitingCommand opcode pending = some (entry, rest))
    (x : WaitingCommand) : pending.count x = [entry].count x + rest.count x := by
  have herase : entry ∈ pending ∧ rest = pending.erase entry := by
    unfold getWaitingCommand at hget
    split at hget
    case h_1 found hfind =>
      cases hget
      exact ⟨List.mem_of_find?_eq_some hfind, rfl⟩
    case h_2 =>
      split at hget
      case h_1 found hfind =>
        cases hget
        exact ⟨List.mem_of_find?_eq_some hfind, rfl⟩
      case h_2 => cases hget
  obtain ⟨hmem, rfl⟩ := herase
  rw [(List.perm_cons_erase hmem).count_eq x, List.count_cons, List.count_singleton]
  exact Nat.add_comm _ _

theorem Books.findEntry {s : Layer} (h : Books s) (hidle : s.filtering = .idle)
    {pending : List WaitingCommand} (hpending : s.commandsPendingResponse = some pending)
    (eventCode : ResponseCode) (status credits : BitVec 8) (opcode : BitVec 16) :
    Books (findEntry eventCode status credits opcode pending s) := by
  have hpackets : ∀ p, owners s p + (if some s.received = some p then 1 else 0) =
      if p < s.received + 1 then 1 else 0 := by
    intro p
    have hp := h.packets p
    simp only [inHand, hidle, Filtering.response, Option.map_none, reduceCtorEq, if_false,
      Option.some.injEq] at hp ⊢
    split at hp <;> split <;> split <;> omega
  unfold Hci.findEntry
  split
  case h_1 entry rest hget =>
    refine ⟨h.calls, fun x => ?_, h.commands, h.ready, hpackets, h.stopped, nofun⟩
    have hx := h.entries x
    have htaken := count_getWaitingCommand hget x
    simp only [inPlay, Layer.waiting, Layer.held, hidle, hpending, Filtering.response,
      Option.getD_some, Option.toList_some, List.count_nil] at hx ⊢
    omega
  case h_2 =>
    refine ⟨h.calls, fun x => ?_, h.commands, h.ready, hpackets, h.stopped, h.closed⟩
    have hx := h.entries x
    simp only [inPlay, Layer.waiting, Layer.held, hidle, Filtering.response, Option.toList_none,
      List.count_nil] at hx ⊢
    exact hx

theorem Books.hciEventReceived {s : Layer} (h : Books s) (stream : Stream) :
    Books (hciEventReceived stream s) := by
  unfold Hci.hciEventReceived
  split
  case h_2 => exact h
  case h_1 pending hidle hpending =>
    have hpackets : ∀ o : PacketOwner, ∀ p,
        ((s.packets ++ [(s.received, o)]).map Prod.fst).count p + inHand s p =
          if p < s.received + 1 then 1 else 0 := by
      intro o p
      have hp := h.packets p
      unfold owners at hp
      rw [List.map_append, List.count_append, List.map_singleton, List.count_singleton]
      simp only [inHand, hidle, Filtering.response, Option.map_none, reduceCtorEq, if_false,
        beq_iff_eq] at hp ⊢
      split at hp <;> split <;> split <;> omega
    dsimp only
    split
    · exact h.findEntry hidle hpending _ _ _ _
    split
    · exact h.findEntry hidle hpending _ _ _ _
    split
    · exact ⟨h.calls, h.entries, h.commands, h.ready, hpackets _, h.stopped, h.closed⟩
    · exact ⟨h.calls, h.entries, h.commands, h.ready, hpackets _, h.stopped, h.closed⟩

theorem Books.processCommandCredits {s : Layer} (h : Books s) {response : Response}
    (hmatched : s.filtering = .matched response) : Books (processCommandCredits response s) := by
  have hentries : ∀ x, s.transmitted.count x = s.commandQueue.count x + s.posted.count x +
      s.waiting.count x + response.waitEntry.toList.count x + s.freed.count x := by
    intro x
    have hx := h.entries x
    simp only [inPlay, Layer.held, hmatched, Filtering.response] at hx
    exact hx
  have hpackets : ∀ p, owners s p + (if some response.packet = some p then 1 else 0) =
      if p < s.received then 1 else 0 := by
    intro p
    have hp := h.packets p
    simp only [inHand, hmatched, Filtering.response, Option.map_some] at hp
    exact hp
  unfold Hci.processCommandCredits
  split
  · exact ⟨h.calls, hentries, h.commands, h.ready, hpackets, h.stopped, h.closed⟩
  · exact ⟨h.calls, hentries, h.commands, h.ready, hpackets, h.stopped, h.closed⟩

theorem Books.creditRound {s : Layer} (h : Books s) {response : Response}
    (hcrediting : s.filtering = .crediting response)
    (hrun : 0 < s.commandCredits → s.commandQueue ≠ [] → s.running = true) :
    Books (creditRound response s) := by
  have hdone : Books { s with filtering := .credited response } := by
    refine ⟨h.calls, fun x => ?_, h.commands, h.ready, fun p => ?_, h.stopped, h.closed⟩
    · have hx := h.entries x
      simp only [inPlay, Layer.held, hcrediting, Filtering.response] at hx
      exact hx
    · have hp := h.packets p
      simp only [inHand, hcrediting, Filtering.response] at hp
      exact hp
  unfold Hci.creditRound
  split
  case h_2 => exact hdone
  case h_1 entry queue hqueue =>
    split
    · have hrunning : s.running = true :=
        hrun ‹_› (by rw [hqueue]; exact List.cons_ne_nil _ _)
      have hup : s.commandsPendingResponse ≠ none := by
        intro hnone
        rw [(h.closed hnone).1] at hrunning
        cases hrunning
      simp only [doInThread, hrunning, if_true, Option.getD_some]
      refine ⟨h.calls, fun x => ?_, h.commands, h.ready, h.packets, nofun,
        fun hnone => absurd hnone hup⟩
      have hx := h.entries x
      simp only [inPlay, Layer.waiting, Layer.held, hqueue, List.count_append, List.count_cons,
        List.count_nil] at hx ⊢
      omega
    · exact hdone

/-- `intercepted` gives the packet one owner and settles the entry: its buffer gets an owner and its
future is completed as its memory is freed. -/
theorem intercepted_eq (response : Response) (s : Layer) : ∃ owner commands ready,
    intercepted response s =
      { s with
        packets := s.packets ++ [(response.packet, owner)]
        commands := s.commands ++ commands
        ready := s.ready ++ ready
        freed := s.freed ++ response.waitEntry.toList } ∧
    commands.map Prod.fst = response.waitEntry.toList.map WaitingCommand.command ∧
    ready.map Prod.fst = response.waitEntry.toList.filterMap WaitingCommand.completeFuture := by
  obtain ⟨packet, eventCode, status, credits, _ | entry⟩ := response
  · exact ⟨.freed, [], [], by simp [intercepted, freePacket], rfl, rfl⟩
  obtain ⟨opcode, future, complete, statusCallback, context, command, hfutured⟩ := entry
  rcases hfutured with rfl | ⟨rfl, rfl, rfl⟩
  · cases eventCode with
    | complete =>
        cases complete with
        | none =>
            refine ⟨.freed, [(command, .freed)], [], ?_, rfl, rfl⟩
            simp [intercepted, deliver, freePacket, freeCommand, freeEntry]
        | some callback =>
            refine ⟨.completeCallback callback context, [(command, .freed)], [], ?_, rfl, rfl⟩
            simp [intercepted, deliver, freeCommand, freeEntry]
    | status =>
        cases statusCallback with
        | none =>
            refine ⟨.freed, [(command, .freed)], [], ?_, rfl, rfl⟩
            simp [intercepted, deliver, freePacket, freeCommand, freeEntry]
        | some callback =>
            refine ⟨.freed, [(command, .statusCallback callback context status)], [], ?_, rfl,
              rfl⟩
            simp [intercepted, deliver, freePacket, freeEntry]
  · -- a future gets the packet from either event
    cases eventCode with
    | complete =>
        refine ⟨.future command, [(command, .freed)], [(command, packet)], ?_, rfl, rfl⟩
        simp [intercepted, deliver, futureReady, freeCommand, freeEntry]
    | status =>
        refine ⟨.future command, [(command, .freed)], [(command, packet)], ?_, rfl, rfl⟩
        simp [intercepted, deliver, futureReady, freeCommand, freeEntry]

theorem Books.intercepted {s : Layer} (h : Books s) {response : Response}
    (hcredited : s.filtering = .credited response) :
    Books (intercepted response { s with filtering := .idle }) := by
  obtain ⟨owner, commands, ready, heq, hcommands, hready⟩ :=
    intercepted_eq response { s with filtering := .idle }
  rw [heq]
  refine ⟨h.calls, fun x => ?_, ?_, ?_, fun p => ?_, h.stopped, h.closed⟩
  · have hx := h.entries x
    simp only [inPlay, Layer.waiting, Layer.held, hcredited, Filtering.response,
      List.count_append, List.count_nil] at hx ⊢
    omega
  · rw [List.map_append, List.map_append, h.commands, hcommands]
  · rw [List.map_append, List.filterMap_append, h.ready, hready]
  · have hp := h.packets p
    simp only [inHand, owners, hcredited, Filtering.response, Option.map_some, Option.map_none,
      reduceCtorEq, if_false, Option.some.injEq, List.map_append, List.map_singleton,
      List.count_append, List.count_singleton, beq_iff_eq] at hp ⊢
    omega

theorem Books.filterIncomingEvent {s : Layer} (h : Books s)
    (hcareful : Careful s .filterIncomingEvent) : Books (filterIncomingEvent s) := by
  unfold Hci.filterIncomingEvent
  cases hfiltering : s.filtering with
  | idle => exact h
  | matched response => exact h.processCommandCredits hfiltering
  | crediting response =>
      refine h.creditRound hfiltering (hcareful ?_)
      rw [hfiltering]
      rfl
  | credited response => exact h.intercepted hfiltering

theorem Books.startUp {s : Layer} (h : Books s) : Books (hciModuleStartUp s) := by
  unfold hciModuleStartUp
  split
  case isFalse => exact h
  case isTrue hdown =>
    refine ⟨h.calls, fun x => ?_, h.commands, h.ready, h.packets, nofun, nofun⟩
    have hx := h.entries x
    simp only [inPlay, Layer.waiting, Layer.held, hdown.2, Option.getD_none, Option.getD_some]
      at hx ⊢
    exact hx

theorem Books.threadShutDown {s : Layer} (h : Books s) (hposted : s.posted = []) :
    Books (threadShutDown s) := by
  refine ⟨h.calls, fun x => ?_, h.commands, h.ready, h.packets, fun _ => rfl,
    fun hnone => ⟨rfl, (h.closed hnone).2⟩⟩
  have hx := h.entries x
  rw [inPlay, hposted] at hx
  exact hx

theorem Books.closeAndFreeList {s : Layer} (h : Books s)
    (hcareful : Careful s .closeAndFreeList) : Books (closeAndFreeList s) := by
  unfold Hci.closeAndFreeList
  split
  case isFalse => exact h
  case isTrue hstop =>
    obtain ⟨hwaiting, hqueue⟩ := hcareful hstop
    refine ⟨h.calls, fun x => ?_, h.commands, h.ready, h.packets, h.stopped,
      fun _ => ⟨hstop, hqueue⟩⟩
    have hx := h.entries x
    rw [inPlay, hwaiting] at hx
    exact hx

theorem books_step {s : Layer} (h : Books s) {e : Step} (hcareful : Careful s e) :
    Books (step s e) := by
  cases e with
  | transmitCommand stream complete status context =>
      unfold step
      dsimp only
      split
      case isFalse => exact h
      case isTrue hfree => exact h.enqueue rfl (hcareful hfree) fun _ => .inr rfl
  | transmitCommandFutured stream =>
      unfold step
      dsimp only
      split
      case isFalse => exact h
      case isTrue hfree =>
        obtain ⟨hup, hrun⟩ := hcareful hfree
        exact h.enqueue rfl hup fun hcredits => .inl (hrun hcredits)
  | eventCommandReady => exact h.eventCommandReady
  | hciEventReceived stream => exact h.hciEventReceived stream
  | filterIncomingEvent => exact h.filterIncomingEvent hcareful
  | startUp => exact h.startUp
  | threadShutDown => exact h.threadShutDown hcareful
  | closeAndFreeList => exact h.closeAndFreeList hcareful

/-! ### What the other steps lose -/

/-- An entry that leaves the layer's places with its buffer is not accounted for. -/
theorem Books.not_accounted_of_lost {s s' : Layer} (h : Books s) {w : WaitingCommand}
    (hin : 0 < inPlay s w) (htransmitted : s'.transmitted = s.transmitted)
    (hcommands : s'.commands = s.commands) (hout : inPlay s' w = 0) : ¬ Accounted s' := by
  intro haccounted
  have hmem : w ∈ s.transmitted := h.transmitted_of_pos (by omega)
  have hone := haccounted.commands w (htransmitted ▸ hmem)
  have hnone : disposals s' w.command = 0 := by
    have heq := h.disposals_eq hmem
    rw [(h.inPlay_eq_one hin).2] at heq
    rw [disposals, hcommands]
    exact heq
  omega

theorem Books.not_transmitted {s : Layer} (h : Books s) {w : WaitingCommand}
    (hcommand : w.command = s.transmitted.length) : w ∉ s.transmitted := by
  intro hmem
  have hrange : w.command ∈ List.range s.transmitted.length := by
    rw [← h.calls]
    exact List.mem_map_of_mem hmem
  rw [List.mem_range, hcommand] at hrange
  exact lt_irrefl _ hrange

/-- A new call has no place, no disposal and no completion yet. -/
theorem Books.fresh {s : Layer} (h : Books s) {w : WaitingCommand}
    (hcommand : w.command = s.transmitted.length) :
    inPlay s w = 0 ∧ disposals s w.command = 0 ∧
      ∀ f, w.completeFuture = some f → completions s f = 0 := by
  have hzero : inPlay s w + s.freed.count w = 0 := by
    rw [← h.entries w]
    exact List.count_eq_zero_of_not_mem (h.not_transmitted hcommand)
  refine ⟨by omega, List.count_eq_zero_of_not_mem ?_, fun f hf => ?_⟩
  · rw [h.commands]
    intro hmem
    obtain ⟨v, hv, heq⟩ := List.mem_map.1 hmem
    exact h.not_transmitted (heq.trans hcommand) (h.transmitted_of_freed hv)
  · apply List.count_eq_zero_of_not_mem
    rw [h.ready]
    intro hmem
    obtain ⟨v, hv, hvf⟩ := List.mem_filterMap.1 hmem
    have hsame : v.command = w.command :=
      (command_eq_future hvf).trans (command_eq_future hf).symm
    exact h.not_transmitted (hsame.trans hcommand) (h.transmitted_of_freed hv)

/-- A command that is queued while the layer is down stays in the queue. -/
theorem Books.not_accounted_queued {s : Layer} (h : Books s) {w : WaitingCommand}
    (hcommand : w.command = s.transmitted.length) (hcredits : s.commandCredits ≤ 0)
    (hnone : s.commandsPendingResponse = none) :
    ¬ Accounted (enqueueCommand w { s with transmitted := s.transmitted ++ [w] }) := by
  intro haccounted
  have hcredits' : ¬ s.commandCredits > 0 := by omega
  rw [enqueueCommand, if_neg hcredits'] at haccounted
  obtain ⟨hplay, hdisposals, -⟩ := h.fresh hcommand
  have hheld : s.held.count w = 0 := by
    unfold inPlay at hplay
    omega
  have hone := haccounted.shut hnone w (List.mem_append_right _ (List.mem_singleton_self w))
  have hzero : disposals s w.command + s.held.count w = 1 := hone
  omega

/-- A command with a future that finds a credit but no thread is freed, and its future is not
completed. -/
theorem Books.not_accounted_refused {s : Layer} (h : Books s) {w : WaitingCommand}
    (hcommand : w.command = s.transmitted.length) (hcredits : 0 < s.commandCredits)
    (hrunning : s.running = false) {f : Nat} (hf : w.completeFuture = some f) :
    ¬ Accounted (enqueueCommand w { s with transmitted := s.transmitted ++ [w] }) := by
  intro haccounted
  simp only [enqueueCommand, gt_iff_lt, hcredits, if_true, doInThread, hrunning,
    Bool.false_eq_true, if_false, freeEntry, freeCommand] at haccounted
  obtain ⟨hplay, -, hcompletions⟩ := h.fresh hcommand
  have hone := haccounted.waiters w (List.mem_append_right _ (List.mem_singleton_self w)) hplay f hf
  have hzero : completions s f = 1 := hone
  rw [hcompletions f hf] at hzero
  cases hzero

theorem Books.careful_credits {s : Layer} (h : Books s)
    (haccounted : Accounted (step s .filterIncomingEvent)) : Careful s .filterIncomingEvent := by
  intro hcrediting hcredits hqueue
  by_contra hrunning
  obtain ⟨response, hfiltering⟩ : ∃ response, s.filtering = .crediting response := by
    cases hfiltering : s.filtering with
    | crediting response => exact ⟨response, rfl⟩
    | _ => rw [hfiltering] at hcrediting; cases hcrediting
  obtain ⟨entry, queue, hcons⟩ := List.exists_cons_of_ne_nil hqueue
  simp only [step, Hci.filterIncomingEvent, hfiltering, Hci.creditRound, hcons, gt_iff_lt, hcredits,
    if_true, doInThread, hrunning, if_false, Option.getD_none] at haccounted
  have hin : 0 < inPlay s entry := by
    rw [inPlay, hcons, List.count_cons_self]
    omega
  obtain ⟨hone, -⟩ := h.inPlay_eq_one hin
  refine absurd haccounted (h.not_accounted_of_lost hin rfl rfl ?_)
  simp only [inPlay, Layer.waiting, Layer.held, hcons, hfiltering, List.count_cons_self]
    at hone ⊢
  omega

theorem Books.careful_threadShutDown {s : Layer} (h : Books s)
    (haccounted : Accounted (step s .threadShutDown)) : s.posted = [] := by
  cases hposted : s.posted with
  | nil => rfl
  | cons entry posted =>
      exfalso
      have hin : 0 < inPlay s entry := by
        rw [inPlay, hposted, List.count_cons_self]
        omega
      obtain ⟨hone, -⟩ := h.inPlay_eq_one hin
      refine absurd haccounted (h.not_accounted_of_lost hin rfl rfl ?_)
      simp only [inPlay, Layer.waiting, Layer.held, step, Hci.threadShutDown, hposted,
        List.count_cons_self, List.count_nil] at hone ⊢
      omega

theorem Books.careful_closeAndFreeList {s : Layer} (h : Books s)
    (haccounted : Accounted (step s .closeAndFreeList)) : Careful s .closeAndFreeList := by
  intro hstop
  have hstep : step s .closeAndFreeList = { s with commandsPendingResponse := none } := if_pos hstop
  rw [hstep] at haccounted
  constructor
  · cases hwaiting : s.waiting with
    | nil => rfl
    | cons entry waiting =>
        exfalso
        have hin : 0 < inPlay s entry := by
          rw [inPlay, hwaiting, List.count_cons_self]
          omega
        obtain ⟨hone, -⟩ := h.inPlay_eq_one hin
        refine absurd haccounted (h.not_accounted_of_lost hin rfl rfl ?_)
        rw [inPlay, hwaiting, List.count_cons_self] at hone
        simp only [inPlay, Layer.waiting, Layer.held, Option.getD_none, List.count_nil]
          at hone ⊢
        omega
  · cases hqueue : s.commandQueue with
    | nil => rfl
    | cons entry queue =>
        exfalso
        have hin : 0 < inPlay s entry := by
          rw [inPlay, hqueue, List.count_cons_self]
          omega
        obtain ⟨hone, hfreed⟩ := h.inPlay_eq_one hin
        have hmem := h.transmitted_of_pos (w := entry) (by omega)
        have hshut : disposals s entry.command + s.held.count entry = 1 :=
          haccounted.shut rfl entry hmem
        rw [h.disposals_eq hmem] at hshut
        rw [inPlay, hqueue, List.count_cons_self] at hone
        omega

/-- A step that is not careful breaks the accounts at once. -/
theorem careful_of_accounted {s : Layer} (h : Books s) {e : Step}
    (haccounted : Accounted (step s e)) : Careful s e := by
  cases e with
  | transmitCommand stream complete status context =>
      intro hfree hcredits hnone
      rw [step, if_pos hfree] at haccounted
      exact h.not_accounted_queued rfl hcredits hnone haccounted
  | transmitCommandFutured stream =>
      intro hfree
      rw [step, if_pos hfree] at haccounted
      refine ⟨fun hcredits hnone => h.not_accounted_queued rfl hcredits hnone haccounted,
        fun hcredits => ?_⟩
      by_contra hrunning
      exact h.not_accounted_refused rfl hcredits (Bool.eq_false_of_not_eq_true hrunning) rfl
        haccounted
  | eventCommandReady => trivial
  | hciEventReceived stream => trivial
  | filterIncomingEvent => exact h.careful_credits haccounted
  | startUp => trivial
  | threadShutDown => exact h.careful_threadShutDown haccounted
  | closeAndFreeList => exact h.careful_closeAndFreeList haccounted

/-- A run keeps every packet, command buffer, future and entry accounted for exactly when each of
its steps is careful. -/
theorem accounted_iff_careful (steps : List Step) :
    Run.Always step Accounted start steps ↔ Run.EachStep step Careful start steps :=
  Run.always_iff_eachStep_of_invariant (fun _ _ h hcareful => books_step h hcareful)
    (fun _ _ h haccounted => careful_of_accounted h haccounted) (fun _ h => h.accounted)
    books_start

def bytes (l : List (BitVec 8)) : Stream := fun i => l.getD i 0

/-- The chip answers a futured vendor command with a Command Status event of another vendor opcode,
and the layer is shut down. -/
def answeredRun : List Step :=
  [.startUp, .transmitCommandFutured (bytes [0x53, 0xFD]), .eventCommandReady,
    .hciEventReceived (bytes [0x0F, 4, 1, 1, 0x00, 0xFC]), .filterIncomingEvent,
    .filterIncomingEvent, .filterIncomingEvent, .threadShutDown, .closeAndFreeList]

example : Run.EachStep step Careful start answeredRun ∧
    (Run.final step start answeredRun).packets = [(0, .future 0)] ∧
    (Run.final step start answeredRun).commands = [(0, .freed)] := by
  decide

/-- The layer is shut down before the chip answers. -/
def unansweredRun : List Step :=
  [.startUp, .transmitCommandFutured (bytes [0x53, 0xFD]), .eventCommandReady, .threadShutDown,
    .closeAndFreeList]

/-- The entry of the unanswered command is gone, and its future is not completed. -/
theorem shut_down_forgets_future : ¬ Run.Always step Accounted start unansweredRun := by
  intro halways
  obtain ⟨entry, hentry, hfuture, hplay⟩ :
      ∃ entry ∈ (Run.final step start unansweredRun).transmitted,
        entry.completeFuture = some 0 ∧
          inPlay (Run.final step start unansweredRun) entry = 0 := by
    decide
  have hdone : completions (Run.final step start unansweredRun) 0 = 1 :=
    halways.final.waiters entry hentry hplay 0 hfuture
  revert hdone
  decide

end LineageA1000.Hci
