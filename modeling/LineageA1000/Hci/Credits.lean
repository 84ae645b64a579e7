import LineageA1000.Hci.Owners

/-!
# Credits

The controller says how many commands it can take, and the layer sends no more than that. It counts
the commands that wait for a response, not those that are still tasks of the HCI thread, so what it
may send is right as long as no task is on its way when an event brings new credits. The queue holds
a command only while there is no credit, and the commands leave in the order of the calls.
-/

namespace LineageA1000.Hci

/-! ### The places of commands -/

/-- Commands that took a credit and have no response yet. -/
def Layer.out (s : Layer) : Nat := s.posted.length + s.waiting.length

/-- The commands from the controller back to the queue, by the numbers of their calls. -/
def Layer.line (s : Layer) : List Nat :=
  s.sent ++ s.posted.map WaitingCommand.command ++ s.commandQueue.map WaitingCommand.command

/-- A layer that is down is brought up. -/
def Starts (s : Layer) : Step → Prop
  | .startUp => s.running = false ∧ s.commandsPendingResponse = none
  | _ => False

instance decidableStarts (s : Layer) : ∀ e, Decidable (Starts s e)
  | .startUp => inferInstanceAs (Decidable (s.running = false ∧ s.commandsPendingResponse = none))
  | .transmitCommand .. | .transmitCommandFutured _ | .eventCommandReady | .hciEventReceived _
  | .filterIncomingEvent | .threadShutDown | .closeAndFreeList => .isFalse id

/-- The event whose credits the step counts. -/
def counted (s : Layer) : Step → Option Response
  | .filterIncomingEvent =>
      match s.filtering with
      | .matched response => if s.running then some response else none
      | _ => none
  | _ => none

/-! ### What a step does to the places -/

/-- A step that neither counts credits nor brings the layer up, seen from the queue and the
credits. -/
inductive Passes (s : Layer) : Layer → Prop
  /-- No command gets further, though some may be forgotten or answered. -/
  | stays (s' : Layer) (hcredits : s'.commandCredits = s.commandCredits) (hout : s'.out ≤ s.out)
      (hline : s'.line.Sublist s.line) (hqueue : s'.commandQueue = s.commandQueue)
      (hcalls : s.transmitted.length ≤ s'.transmitted.length)
      (hfree : s'.creditsFree → s.creditsFree) : Passes s s'
  /-- A call finds no credit. -/
  | queued (s' : Layer) (entry : WaitingCommand) (hcredits : s.commandCredits ≤ 0)
      (hsame : s'.commandCredits = s.commandCredits) (hout : s'.out = s.out)
      (hline : s'.line = s.line ++ [entry.command])
      (hnumber : entry.command = s.transmitted.length)
      (hcalls : s'.transmitted.length = s.transmitted.length + 1) : Passes s s'
  /-- A call takes a credit. -/
  | posted (s' : Layer) (entry : WaitingCommand) (hfree : s.creditsFree)
      (hcredits : 0 < s.commandCredits) (hless : s'.commandCredits = s.commandCredits - 1)
      (hout : s'.out = s.out + 1) (hqueue : s'.commandQueue = s.commandQueue)
      (hline : s.commandQueue = [] → s'.line = s.line ++ [entry.command])
      (hnumber : entry.command = s.transmitted.length)
      (hcalls : s'.transmitted.length = s.transmitted.length + 1) : Passes s s'
  /-- A queued command takes a credit, and is lost if the thread does not run. -/
  | taken (s' : Layer) (hcredits : 0 < s.commandCredits)
      (hless : s'.commandCredits = s.commandCredits - 1) (hout : s'.out ≤ s.out + 1)
      (hline : s'.line.Sublist s.line) (hcalls : s'.transmitted = s.transmitted)
      (hbusy : ¬ s'.creditsFree) : Passes s s'
  /-- The credits' mutex is let go. -/
  | done (s' : Layer) (hcredits : s'.commandCredits = s.commandCredits) (hout : s'.out = s.out)
      (hline : s'.line = s.line) (hcalls : s'.transmitted = s.transmitted)
      (hqueue : s'.commandQueue = s.commandQueue)
      (hend : s.commandCredits ≤ 0 ∨ s.commandQueue = []) : Passes s s'

theorem passes_refl (s : Layer) : Passes s s :=
  .stays s rfl le_rfl (List.Sublist.refl _) rfl le_rfl id

/-- A task is posted if the HCI thread runs, and else refused. -/
theorem doInThread_cases (entry : WaitingCommand) (s : Layer) :
    s.running = false ∧ doInThread entry s = none ∨
      s.running = true ∧ doInThread entry s = some { s with posted := s.posted ++ [entry] } := by
  rcases Bool.eq_false_or_eq_true s.running with hrunning | hrunning
  · exact .inr ⟨hrunning, if_pos hrunning⟩
  · exact .inl ⟨hrunning, if_neg (Bool.eq_false_iff.1 hrunning)⟩

theorem passes_enqueue {s : Layer} (hfree : s.creditsFree) (entry : WaitingCommand)
    (hnumber : entry.command = s.transmitted.length) :
    Passes s (enqueueCommand entry { s with transmitted := s.transmitted ++ [entry] }) := by
  have hcalls : (s.transmitted ++ [entry]).length = s.transmitted.length + 1 :=
    List.length_append ..
  rw [enqueueCommand]
  split
  case isTrue hcredits =>
    rcases doInThread_cases entry { s with transmitted := s.transmitted ++ [entry] } with
      ⟨-, hrefused⟩ | ⟨-, hposted⟩
    · rw [hrefused]
      refine .stays _ rfl le_rfl (List.Sublist.refl _) rfl ?_ id
      exact hcalls ▸ Nat.le_succ _
    · rw [hposted]
      refine .posted _ entry hfree hcredits rfl ?_ rfl (fun hqueue => ?_) hnumber hcalls
      · simp only [Layer.out, Layer.waiting, List.length_append, List.length_singleton]
        omega
      · simp only [Layer.line, hqueue, List.map_append, List.map_cons, List.map_nil,
          List.append_nil, List.append_assoc]
  case isFalse hcredits =>
    refine .queued _ entry (not_lt.1 hcredits) rfl rfl ?_ hnumber hcalls
    simp only [Layer.line, List.map_append, List.map_cons, List.map_nil, List.append_assoc]

theorem passes_eventCommandReady (s : Layer) : Passes s (eventCommandReady s) := by
  rw [eventCommandReady]
  split
  case h_1 entry posted pending hposted hpending =>
    refine .stays _ rfl ?_ ?_ rfl le_rfl id
    · simp only [Layer.out, Layer.waiting, hposted, hpending, Option.getD_some, List.length_append,
        List.length_cons, List.length_nil]
      omega
    · simp only [Layer.line, hposted, List.map_cons, List.append_assoc, List.cons_append,
        List.nil_append]
      exact List.Sublist.refl _
  case h_2 => exact passes_refl s

theorem length_getWaitingCommand {opcode : BitVec 16} {pending rest : List WaitingCommand}
    {entry : WaitingCommand} (h : getWaitingCommand opcode pending = some (entry, rest)) :
    rest.length ≤ pending.length := by
  rw [getWaitingCommand] at h
  split at h
  · obtain ⟨rfl, rfl⟩ := Prod.mk.inj (Option.some.inj h)
    exact List.length_erase_le
  · split at h
    · obtain ⟨rfl, rfl⟩ := Prod.mk.inj (Option.some.inj h)
      exact List.length_erase_le
    · cases h

theorem passes_findEntry {s : Layer} (hidle : s.filtering = .idle) {pending : List WaitingCommand}
    (hpending : s.commandsPendingResponse = some pending) (eventCode : ResponseCode)
    (status credits : BitVec 8) (opcode : BitVec 16) :
    Passes s (findEntry eventCode status credits opcode pending s) := by
  have hfree : s.creditsFree := by
    rw [Layer.creditsFree, hidle]
    rfl
  rw [findEntry]
  split
  case h_1 entry rest hfound =>
    refine .stays _ rfl ?_ (List.Sublist.refl _) rfl le_rfl fun _ => hfree
    have hless := length_getWaitingCommand hfound
    simp only [Layer.out, Layer.waiting, hpending, Option.getD_some]
    omega
  case h_2 => exact .stays _ rfl le_rfl (List.Sublist.refl _) rfl le_rfl fun _ => hfree

theorem passes_hciEventReceived (s : Layer) (stream : Stream) :
    Passes s (hciEventReceived stream s) := by
  rw [hciEventReceived]
  split
  case h_2 => exact passes_refl s
  case h_1 pending hidle hpending =>
    dsimp only
    split
    · exact passes_findEntry hidle hpending ..
    split
    · exact passes_findEntry hidle hpending ..
    split
    · exact .stays _ rfl le_rfl (List.Sublist.refl _) rfl le_rfl id
    · exact .stays _ rfl le_rfl (List.Sublist.refl _) rfl le_rfl id

theorem passes_creditRound {s : Layer} {response : Response}
    (hcrediting : s.filtering = .crediting response) : Passes s (creditRound response s) := by
  have hbusy : ∀ s' : Layer, s'.filtering = s.filtering → ¬ s'.creditsFree := by
    intro s' hsame hfree
    rw [Layer.creditsFree, hsame, hcrediting] at hfree
    cases hfree
  rw [creditRound]
  split
  case h_2 hqueue => exact .done _ rfl rfl rfl rfl rfl (.inr hqueue)
  case h_1 entry queue hqueue =>
    split
    case isFalse hcredits => exact .done _ rfl rfl rfl rfl rfl (.inl (not_lt.1 hcredits))
    case isTrue hcredits =>
      rcases doInThread_cases entry s with ⟨-, hrefused⟩ | ⟨-, hposted⟩
      · rw [hrefused, Option.getD_none]
        refine .taken _ hcredits rfl ?_ ?_ rfl (hbusy _ rfl)
        · simp only [Layer.out, Layer.waiting]
          omega
        · simp only [Layer.line, hqueue, List.map_cons]
          exact List.Sublist.append_left (List.sublist_cons_self _ _) _
      · rw [hposted, Option.getD_some]
        refine .taken _ hcredits rfl ?_ ?_ rfl (hbusy _ rfl)
        · simp only [Layer.out, Layer.waiting, List.length_append, List.length_singleton]
          omega
        · simp only [Layer.line, hqueue, List.map_append, List.map_cons, List.map_nil,
            List.append_assoc, List.cons_append, List.nil_append]
          exact List.Sublist.refl _

theorem passes_filterIncomingEvent {s : Layer} (hcounted : counted s .filterIncomingEvent = none) :
    Passes s (filterIncomingEvent s) := by
  rw [filterIncomingEvent]
  cases hfiltering : s.filtering with
  | idle => exact passes_refl s
  | matched response =>
      have hstopped : s.running = false := by
        rw [counted, hfiltering] at hcounted
        cases hrunning : s.running with
        | false => rfl
        | true =>
            rw [hrunning] at hcounted
            cases hcounted
      simp only [processCommandCredits, hstopped, Bool.false_eq_true, if_false]
      refine .stays _ rfl le_rfl (List.Sublist.refl _) rfl le_rfl fun _ => ?_
      rw [Layer.creditsFree, hfiltering]
      rfl
  | crediting response => exact passes_creditRound hfiltering
  | credited response =>
      obtain ⟨owner, commands, ready, heq, -, -⟩ :=
        intercepted_eq response { s with filtering := .idle }
      simp only [heq]
      refine .stays _ rfl le_rfl (List.Sublist.refl _) rfl le_rfl fun _ => ?_
      rw [Layer.creditsFree, hfiltering]
      rfl

theorem passes_step {s : Layer} {e : Step} (hcounted : counted s e = none) (hstarts : ¬ Starts s e) :
    Passes s (step s e) := by
  cases e with
  | transmitCommand stream completeCallback statusCallback context =>
      rw [step]
      split
      · exact passes_enqueue ‹_› _ rfl
      · exact passes_refl s
  | transmitCommandFutured stream =>
      rw [step]
      split
      · exact passes_enqueue ‹_› _ rfl
      · exact passes_refl s
  | eventCommandReady => exact passes_eventCommandReady s
  | hciEventReceived stream => exact passes_hciEventReceived s stream
  | filterIncomingEvent => exact passes_filterIncomingEvent hcounted
  | startUp =>
      have hsame : hciModuleStartUp s = s := if_neg hstarts
      rw [step, hsame]
      exact passes_refl s
  | threadShutDown =>
      refine .stays _ rfl ?_ ?_ rfl le_rfl id
      · simp only [step, threadShutDown, Layer.out, Layer.waiting, List.length_nil]
        omega
      · simp only [step, threadShutDown, Layer.line, List.map_nil, List.append_nil]
        exact List.Sublist.append_right (List.sublist_append_left _ _) _
  | closeAndFreeList =>
      rw [step, closeAndFreeList]
      split
      · refine .stays _ rfl ?_ (List.Sublist.refl _) rfl le_rfl id
        simp only [Layer.out, Layer.waiting, Option.getD_none, List.length_nil]
        omega
      · exact passes_refl s

theorem step_of_counted {s : Layer} {e : Step} {response : Response}
    (h : counted s e = some response) :
    step s e = { s with
      commandCredits := response.credits.toNat - s.waiting.length
      filtering := .crediting response } := by
  cases e with
  | filterIncomingEvent =>
      rw [counted] at h
      cases hfiltering : s.filtering with
      | matched found =>
          cases hrunning : s.running with
          | true =>
              simp only [hfiltering, hrunning, if_true] at h
              obtain rfl := Option.some.inj h
              simp only [step, filterIncomingEvent, hfiltering, processCommandCredits, hrunning,
                if_true]
          | false =>
              rw [hfiltering, hrunning] at h
              cases h
      | _ =>
          rw [hfiltering] at h
          cases h
  | _ => cases h

theorem step_of_starts {s : Layer} {e : Step} (h : Starts s e) :
    step s e = { s with
      commandCredits := 1, running := true, commandsPendingResponse := some [] } := by
  cases e with
  | startUp => exact if_pos h
  | _ => cases h

/-- Every step counts credits, brings the layer up or passes. -/
theorem step_cases (s : Layer) (e : Step) :
    (∃ response, counted s e = some response) ∨ Starts s e ∨
      counted s e = none ∧ ¬ Starts s e ∧ Passes s (step s e) := by
  cases hcounted : counted s e with
  | some response => exact .inl ⟨response, rfl⟩
  | none =>
      by_cases hstarts : Starts s e
      · exact .inr (.inl hstarts)
      · exact .inr (.inr ⟨rfl, hstarts, passes_step hcounted hstarts⟩)

/-! ### No more than the controller can take -/

section Granted

/-- The credits that the controller gave last. There is one at a start-up. -/
def grants (s : Layer) (granted : Int) (e : Step) : Int :=
  match counted s e with
  | some response => response.credits.toNat
  | none => if Starts s e then 1 else granted

def creditStep (x : Layer × Int) (e : Step) : Layer × Int := (step x.1 e, grants x.1 x.2 e)

/-- The credits left and the commands out are within what the controller gave. -/
def WithinCredits (x : Layer × Int) : Prop := x.1.commandCredits + x.1.out ≤ x.2

instance decidableWithinCredits : DecidablePred WithinCredits := fun x =>
  inferInstanceAs (Decidable (x.1.commandCredits + x.1.out ≤ x.2))

/-- When an event brings credits, no command is on its way as a task. -/
def CountsTasks (x : Layer × Int) (e : Step) : Prop :=
  ∀ response ∈ counted x.1 e, x.1.posted = []

/-- A command goes out only while fewer are out than the controller can take. -/
def SendsWithin (x : Layer × Int) (e : Step) : Prop :=
  x.1.out < (creditStep x e).1.out → (x.1.out : Int) < (creditStep x e).2

theorem posted_enqueue {s : Layer} (h : s.running = false → s.posted = []) (entry : WaitingCommand) :
    (enqueueCommand entry s).running = false → (enqueueCommand entry s).posted = [] := by
  rw [enqueueCommand]
  split
  case isFalse => exact h
  case isTrue =>
    rcases doInThread_cases entry s with ⟨-, hrefused⟩ | ⟨hrunning, hposted⟩
    · rw [hrefused]
      exact h
    · rw [hposted]
      intro hstopped
      cases hrunning.symm.trans hstopped

theorem posted_creditRound {s : Layer} (h : s.running = false → s.posted = [])
    (response : Response) :
    (creditRound response s).running = false → (creditRound response s).posted = [] := by
  rw [creditRound]
  split
  case h_2 => exact h
  case h_1 entry queue hqueue =>
    split
    case isFalse => exact h
    case isTrue =>
      rcases doInThread_cases entry s with ⟨-, hrefused⟩ | ⟨hrunning, hposted⟩
      · rw [hrefused, Option.getD_none]
        exact h
      · rw [hposted, Option.getD_some]
        intro hstopped
        cases hrunning.symm.trans hstopped

theorem stopped_step {s : Layer} (h : s.running = false → s.posted = []) (e : Step) :
    (step s e).running = false → (step s e).posted = [] := by
  cases e with
  | transmitCommand stream completeCallback statusCallback context =>
      rw [step]
      split
      · exact posted_enqueue (s := { s with transmitted := s.transmitted ++ [_] }) h _
      · exact h
  | transmitCommandFutured stream =>
      rw [step]
      split
      · exact posted_enqueue (s := { s with transmitted := s.transmitted ++ [_] }) h _
      · exact h
  | eventCommandReady =>
      rw [step, eventCommandReady]
      split
      case h_1 entry posted pending hposted hpending =>
        intro hstopped
        rw [h hstopped] at hposted
        cases hposted
      case h_2 => exact h
  | hciEventReceived stream =>
      rw [step, hciEventReceived]
      split
      case h_2 => exact h
      case h_1 =>
        dsimp only
        simp only [findEntry]
        split
        · split <;> exact h
        split
        · split <;> exact h
        split <;> exact h
  | filterIncomingEvent =>
      rw [step, filterIncomingEvent]
      cases s.filtering with
      | idle => exact h
      | matched response =>
          dsimp only
          rw [processCommandCredits]
          split <;> exact h
      | crediting response => exact posted_creditRound h response
      | credited response =>
          obtain ⟨owner, commands, ready, heq, -, -⟩ :=
            intercepted_eq response { s with filtering := .idle }
          simp only [heq]
          exact h
  | startUp =>
      rw [step, hciModuleStartUp]
      split
      · intro hstopped
        cases hstopped
      · exact h
  | threadShutDown => exact fun _ => rfl
  | closeAndFreeList =>
      rw [step, closeAndFreeList]
      split <;> exact h

/-- The bound, and what a start-up needs to begin within it. -/
structure Bounded (x : Layer × Int) : Prop where
  within : WithinCredits x
  stopped : x.1.running = false → x.1.posted = []

theorem out_of_passes {s s' : Layer} (h : Passes s s') :
    s'.commandCredits + s'.out ≤ s.commandCredits + s.out ∧
      (s.out < s'.out → 0 < s.commandCredits) := by
  cases h <;> omega

variable {x : Layer × Int} {e : Step}

theorem grants_of_passes (hcounted : counted x.1 e = none) (hstarts : ¬ Starts x.1 e) :
    grants x.1 x.2 e = x.2 := by
  rw [grants, hcounted]
  exact if_neg hstarts

/-- Counting the credits of an event leaves out the tasks on their way. -/
theorem out_of_counted {response : Response} (h : counted x.1 e = some response) :
    (creditStep x e).1.commandCredits + (creditStep x e).1.out =
        (creditStep x e).2 + x.1.posted.length ∧ (creditStep x e).1.out = x.1.out := by
  have hgranted : grants x.1 x.2 e = response.credits.toNat := by
    rw [grants, h]
  rw [creditStep, hgranted, step_of_counted h]
  simp only [Layer.out, Layer.waiting, and_true]
  omega

theorem out_of_starts (h : Bounded x) (hstarts : Starts x.1 e) :
    (creditStep x e).1.commandCredits + (creditStep x e).1.out = (creditStep x e).2 ∧
      (creditStep x e).1.out ≤ x.1.out := by
  have hgranted : grants x.1 x.2 e = 1 := by
    cases e with
    | startUp => exact if_pos hstarts
    | _ => cases hstarts
  have hdown : x.1.running = false := by
    cases e with
    | startUp => exact hstarts.1
    | _ => cases hstarts
  rw [creditStep, hgranted, step_of_starts hstarts]
  simp only [Layer.out, Layer.waiting, h.stopped hdown, Option.getD_some, List.length_nil]
  omega

theorem Bounded.step (h : Bounded x) (hcounts : CountsTasks x e) : Bounded (creditStep x e) := by
  have hwithin := h.within
  refine ⟨?_, stopped_step h.stopped e⟩
  rw [WithinCredits] at hwithin ⊢
  rcases step_cases x.1 e with ⟨response, hcounted⟩ | hstarts | ⟨hcounted, hstarts, hpasses⟩
  · have hsum := (out_of_counted hcounted).1
    rw [hcounts response hcounted, List.length_nil] at hsum
    omega
  · exact (out_of_starts h hstarts).1.le
  · have hsum := (out_of_passes hpasses).1
    rw [creditStep, grants_of_passes hcounted hstarts]
    exact hsum.trans hwithin

theorem Bounded.countsTasks (hwithin : WithinCredits (creditStep x e)) : CountsTasks x e := by
  intro response hcounted
  have hsum := (out_of_counted hcounted).1
  rw [WithinCredits] at hwithin
  exact List.length_eq_zero_iff.1 (by omega)

theorem Bounded.sends (h : Bounded x) : SendsWithin x e := by
  intro hmore
  have hwithin := h.within
  rw [WithinCredits] at hwithin
  rcases step_cases x.1 e with ⟨response, hcounted⟩ | hstarts | ⟨hcounted, hstarts, hpasses⟩
  · have hsame := (out_of_counted hcounted).2
    omega
  · have hless := (out_of_starts h hstarts).2
    omega
  · have hcredit := (out_of_passes hpasses).2 hmore
    rw [creditStep, grants_of_passes hcounted hstarts]
    omega

theorem bounded_start : Bounded (start, 1) := by
  refine ⟨?_, fun _ => rfl⟩
  rw [WithinCredits]
  decide

/-- Over any run of calls, events, tasks, start-ups and shut-downs, the credits left and the commands
out are within what the controller gave last if and only if no command is on its way as a task of the
HCI thread when an event brings credits. In such a run a command goes out only while fewer are out
than the controller can take. -/
theorem withinCredits_iff_countsTasks (steps : List Step) :
    (Run.Always creditStep WithinCredits (start, 1) steps ↔
        Run.EachStep creditStep CountsTasks (start, 1) steps) ∧
      (Run.EachStep creditStep CountsTasks (start, 1) steps →
        Run.EachStep creditStep SendsWithin (start, 1) steps) := by
  constructor
  · exact Run.always_iff_eachStep_of_invariant (fun x e h hcounts => h.step hcounts)
      (fun x e _ hwithin => Bounded.countsTasks hwithin) (fun x h => h.within) bounded_start
  · intro hcounts
    have halways := Run.always_of_eachStep (fun x e (h : Bounded x) hcount => h.step hcount)
      bounded_start hcounts
    exact Run.eachStep_of_always (fun x e h => h.sends) halways

/-- A command is still a task when an event that answers none brings one credit. -/
example : ¬ Run.Always creditStep WithinCredits (start, 1)
    [.startUp, .transmitCommand (bytes [0x03, 0x0C]) none none 0,
      .hciEventReceived (bytes [0x0E, 0x03, 0x01, 0x00, 0x00]), .filterIncomingEvent] := by
  decide

end Granted

/-! ### The queue -/

section Queue

/-- A command waits for a credit only while there is none. -/
def NoneWaits (s : Layer) : Prop := s.creditsFree → 0 < s.commandCredits → s.commandQueue = []

/-- A start-up finds no command left from before, or finds its queue being served. -/
def FindsDrained (s : Layer) (e : Step) : Prop := Starts s e → s.creditsFree → s.commandQueue = []

/-- The commands are in the order of their calls. -/
def InOrder (s : Layer) : Prop :=
  s.line.Pairwise (· < ·) ∧ ∀ n ∈ s.line, n < s.transmitted.length

variable {s : Layer} {e : Step}

theorem NoneWaits.of_passes {s' : Layer} (h : NoneWaits s) (hpasses : Passes s s') :
    NoneWaits s' := by
  intro hfree hcredits
  cases hpasses with
  | stays hsame _ _ hqueue _ hfrees =>
      rw [hqueue]
      exact h (hfrees hfree) (hsame ▸ hcredits)
  | queued entry hnone hsame => omega
  | posted entry hfrees hcredit _ _ hqueue =>
      rw [hqueue]
      exact h hfrees hcredit
  | taken _ _ _ _ _ hbusy => exact absurd hfree hbusy
  | done hsame _ _ _ hqueue hend =>
      rw [hqueue]
      exact hend.resolve_left (by omega)

theorem noneWaits_step (h : NoneWaits s) : NoneWaits (step s e) ↔ FindsDrained s e := by
  rcases step_cases s e with ⟨response, hcounted⟩ | hstarts | ⟨-, hstarts, hpasses⟩
  · have hbusy : ¬ (step s e).creditsFree := by
      rw [step_of_counted hcounted]
      nofun
    have hnot : ¬ Starts s e := by
      cases e with
      | filterIncomingEvent => exact id
      | _ => cases hcounted
    exact iff_of_true (fun hfree => absurd hfree hbusy) (fun hstarts => absurd hstarts hnot)
  · rw [step_of_starts hstarts]
    exact ⟨fun hwaits _ hfree => hwaits hfree Int.one_pos,
      fun hdrained hfree _ => hdrained hstarts hfree⟩
  · exact iff_of_true (h.of_passes hpasses) fun hstart => absurd hstart hstarts

theorem InOrder.extend {s' : Layer} {n : Nat} (h : InOrder s) (hline : s'.line = s.line ++ [n])
    (hnumber : n = s.transmitted.length)
    (hcalls : s'.transmitted.length = s.transmitted.length + 1) : InOrder s' := by
  rw [InOrder, hline, hcalls, List.pairwise_append]
  refine ⟨⟨h.1, List.pairwise_singleton _ _, ?_⟩, ?_⟩
  · intro m hm k hk
    rw [List.mem_singleton.1 hk, hnumber]
    exact h.2 m hm
  · intro m hm
    rcases List.mem_append.1 hm with hm | hm
    · exact (h.2 m hm).trans (Nat.lt_succ_self _)
    · rw [List.mem_singleton.1 hm, hnumber]
      exact Nat.lt_succ_self _

theorem InOrder.shorten {s' : Layer} (h : InOrder s) (hline : s'.line.Sublist s.line)
    (hcalls : s.transmitted.length ≤ s'.transmitted.length) : InOrder s' :=
  ⟨h.1.sublist hline, fun n hn => (h.2 n (hline.subset hn)).trans_le hcalls⟩

theorem InOrder.step (h : InOrder s) (hnone : NoneWaits s) : InOrder (step s e) := by
  rcases step_cases s e with ⟨response, hcounted⟩ | hstarts | ⟨-, -, hpasses⟩
  · rw [step_of_counted hcounted]
    exact h
  · rw [step_of_starts hstarts]
    exact h
  · generalize Hci.step s e = s' at hpasses
    cases hpasses with
    | stays _ _ hline _ hcalls => exact h.shorten hline hcalls
    | queued entry _ _ _ hline hnumber hcalls => exact h.extend hline hnumber hcalls
    | posted entry hfree hcredits _ _ _ hline hnumber hcalls =>
        exact h.extend (hline (hnone hfree hcredits)) hnumber hcalls
    | taken _ _ _ hline hcalls => exact h.shorten hline (hcalls ▸ le_rfl)
    | done _ _ hline hcalls => exact h.shorten (hline ▸ List.Sublist.refl _) (hcalls ▸ le_rfl)

/-- Over any run, a command waits for a credit only while there is none, if and only if no start-up
finds commands that were left in the queue when the layer went down. In such a run the commands reach
the controller in the order of their calls, those that still wait behind those that were sent. -/
theorem noneWaits_iff_findsDrained (steps : List Step) :
    (Run.Always step NoneWaits start steps ↔ Run.EachStep step FindsDrained start steps) ∧
      (Run.EachStep step FindsDrained start steps → Run.Always step InOrder start steps) := by
  have hnone : NoneWaits start := fun _ _ => rfl
  have horder : InOrder start := ⟨.nil, nofun⟩
  constructor
  · exact Run.always_iff_eachStep (fun s e h => noneWaits_step h) hnone
  · intro hdrained
    have halways : Run.Always Hci.step (fun s => NoneWaits s ∧ InOrder s) start steps := by
      refine Run.always_of_eachStep ?_ ⟨hnone, horder⟩ hdrained
      rintro s e ⟨hwaits, hline⟩ hfinds
      exact ⟨(noneWaits_step hwaits).2 hfinds, hline.step hwaits⟩
    exact halways.mono fun s h => h.2

end Queue

end LineageA1000.Hci
