import LineageA1000.Dispc.Live

/-!
# The latch contract of a page flip

A page flip taken instruction by instruction, with the hardware and the interrupt handler running
beside it. The caller holds the frame buffer lock, so other operations come before or after the
flip; completions, interrupts, signals and timeouts come at any moment. The contract: a flip that
returns `0` has been latched, that is, the controller has taken its address over and the handler has
taken the interrupt that says so.
-/

namespace LineageA1000.Dispc

variable (K : FbConst) (d : Device)

/-- Where the caller stands in `sprdfb_dispc_pageflip`. -/
inductive Flip where
  | idle
  | entered (phys : Word)
  | written
  | cleared
  | armed
  | waiting
  | returned (ret : Int)
  deriving DecidableEq, Repr

/-- The driver, the hardware and the handler, with what is known of the running flip: `request` is
an outstanding update or transfer and tells of a transfer whether it began after the address was
written, `latched` that the address has been taken over, `taken` that the handler has read so. -/
structure Machine where
  s : State
  flip : Flip
  request : Option Bool
  /-- The handler has acknowledged the awaited interrupt and not yet raised the done flag. -/
  inHandler : Bool
  latched : Bool
  taken : Bool
  deriving DecidableEq

inductive Event where
  | begin (phys : Word)
  | run
  | wake (wake : Wake)
  | complete
  | vsync
  | underflow
  | irqEnter
  | irqExit
  /-- Another operation as a whole; the hardware and the handler go on meanwhile and leave any
  state behind. -/
  | op (op : Op) (request inHandler : Bool) (raw : IntBits)

namespace Flip

/-- The new address stands in the register. -/
def addressed : Flip → Bool
  | .written | .cleared | .armed | .waiting => true
  | _ => false

/-- The caller does not hold the lock. -/
def outside : Flip → Bool
  | .idle | .returned _ => true
  | _ => false

end Flip

/-- The awaited interrupt is raised. -/
def raiseDone (s : State) : State :=
  match d.panelIf with
  | .dpi => { s with regs.intRaw.updateDone := true, shdwOsdBase := s.regs.osd.base }
  | _ => { s with regs.intRaw.done := true }

def raiseVsync (s : State) : State :=
  match d.panelIf with
  | .dpi => { s with regs.intRaw.hwVsync := true }
  | _ => { s with regs.intRaw.te := true }

/-- An update on DPI takes the registers as they are when it completes; a transfer is under way with
what it began with. -/
def covers (m : Machine) (request : Bool) : Bool :=
  match d.panelIf with
  | .dpi => m.flip.addressed
  | _ => request

/-- The caller's next step. -/
def Machine.run (m : Machine) : Machine :=
  match m.flip with
  | .entered phys =>
      if flipRefusal phys m.s ≠ 0 then { m with flip := .returned (flipRefusal phys m.s) }
      else { m with s := flipWrites phys m.s, flip := .written }
  | .written =>
      if m.s.enable = false then { m with flip := .armed }
      else { m with s := dispcRunClear d m.s, flip := .cleared }
  | .cleared =>
      { m with
        s := dispcRunArm d m.s
        flip := .armed
        request := some (m.request.getD true) }
  | .armed => { m with flip := if m.s.isFirstFrame then .returned 0 else .waiting }
  | _ => m

/-- The caller's sleep ends; it goes on sleeping if it is woken before the done flag is raised. -/
def Machine.wake (m : Machine) (wake : Wake) : Machine :=
  if m.flip = .waiting ∧ ¬ (wake = .done ∧ m.s.enable = true ∧ m.s.vsyncDone = false) then
    let (ret, s) := dispcSync d wake m.s
    { m with s, flip := .returned (if ret ≠ 0 then -ETIMEDOUT else 0) }
  else m

def Machine.step (m : Machine) : Event → Machine
  | .begin phys =>
      if m.flip.outside then
        { m with
          flip := .entered phys
          request := m.request.map fun _ => false
          latched := false
          taken := false }
      else m
  | .run => m.run d
  | .wake wake => m.wake d wake
  | .complete =>
      match m.request with
      | none => m
      | some request =>
          { m with
            s := raiseDone d m.s
            request := none
            latched := m.latched || covers d m request }
  | .vsync => { m with s := raiseVsync d m.s }
  | .underflow => { m with s := { m.s with regs.intRaw.err := true } }
  | .irqEnter =>
      if m.inHandler then m
      else
        let status := intStatus m.s
        { m with
          s := isrAck d status m.s
          inHandler := isrSeesDone d status
          taken := m.taken || (isrSeesDone d status && m.latched) }
  | .irqExit => if m.inHandler then { m with s := isrWake m.s, inHandler := false } else m
  | .op op request inHandler raw =>
      if m.flip.outside then
        let s := (exec K d m.s op).2
        { m with
          s := { s with regs.intRaw := raw }
          request := if request then some false else none
          inHandler }
      else m

/-- Whenever the flip has returned `0` its address has been latched. -/
def LatchedOnReturn (m : Machine) : Prop :=
  m.flip = .returned 0 → m.latched = true ∧ m.taken = true

/-- When `dispc_run` lowers the done flag nothing is left that raises it for an earlier frame: no
first frame, for which a raised flag is not lowered; no interrupt pending or in the handler; off DPI
no transfer under way. -/
def NothingStale (m : Machine) : Prop :=
  (d.panelIf = .dpi → m.s.isFirstFrame = true → m.s.vsyncDone = false) ∧
    (isrSeesDone d m.s.regs.intRaw = true → m.latched = true) ∧
    (m.inHandler = true → m.taken = true) ∧
    (d.panelIf ≠ .dpi → m.request ≠ some false)

/-- The steps that let only the flip's own latch end its wait: no stale completion, no first frame
when the wait begins, no signal during the wait. -/
def OwnLatch (m : Machine) (e : Event) : Prop :=
  match e with
  | .run =>
      match m.flip with
      | .written => NothingStale d m
      | .armed => m.s.isFirstFrame = false
      | _ => True
  | .wake wake => m.flip = .waiting → ¬ (wake = .signal ∧ m.s.vsyncDone = false)
  | _ => True

/-- Left alone, the instructions of a flip make up the whole operation: a sleep that nothing but a
timeout or a signal ends. -/
theorem flip_alone {m : Machine} (houtside : m.flip.outside = true) (phys : Word) {wake : Wake}
    (hwake : wake ≠ .done) :
    let last := Run.final (Machine.step K d) m
      [.begin phys, .run, .run, .run, .run, .wake wake]
    last.s = (pageflip d phys wake m.s).2 ∧ last.flip = .returned (pageflip d phys wake m.s).1 := by
  have hbegin : m.step K d (.begin phys) =
      { m with
        flip := .entered phys
        request := m.request.map fun _ => false
        latched := false
        taken := false } := by
    simp only [Machine.step, if_pos houtside]
  simp only [Run.final_cons, Run.final_nil, hbegin]
  by_cases hgo : flipRefusal phys m.s = 0
  case neg =>
    rw [pageflip_refused wake hgo]
    simp [Machine.step, Machine.run, Machine.wake, hgo]
  have henable : (flipWrites phys m.s).enable = true := (flipRefusal_eq_zero.1 hgo).2.1
  have hflip : pageflip d phys wake m.s =
      flipWait d wake (dispcRunArm d (dispcRunClear d (flipWrites phys m.s))) := by
    unfold pageflip dispcRun
    rw [if_neg (not_not.mpr hgo), if_neg (by simp [henable])]
  rw [hflip]
  cases hfirst : (dispcRunArm d (dispcRunClear d (flipWrites phys m.s))).isFirstFrame with
  | true => simp [Machine.step, Machine.run, Machine.wake, hgo, henable, flipWait, hfirst]
  | false =>
      simp [Machine.step, Machine.run, Machine.wake, hgo, henable, flipWait, hfirst, hwake]

/-! ### The invariant -/

/-- From the lowered done flag on, every sign of completion is a sign of this flip's. -/
structure Owned (m : Machine) : Prop where
  enable : m.s.enable = true
  flag : m.s.vsyncDone = true → m.taken = true
  handler : m.inHandler = true → m.taken = true
  pending : isrSeesDone d m.s.regs.intRaw = true → m.latched = true
  request : d.panelIf ≠ .dpi → m.request ≠ some false

structure Sound (m : Machine) : Prop where
  latched : m.taken = true → m.latched = true
  written : m.flip = .written → m.s.enable = true
  owned : m.flip = .cleared ∨ m.flip = .armed ∨ m.flip = .waiting → Owned d m
  returned : m.flip = .returned 0 → m.taken = true

variable {K} {d}

theorem latchedOnReturn_of_sound {m : Machine} (hm : Sound d m) : LatchedOnReturn m :=
  fun hret => ⟨hm.latched (hm.returned hret), hm.returned hret⟩

/-- A step that keeps the caller where it is and brings no new sign of completion. -/
theorem Sound.of_same {m m' : Machine} (hm : Sound d m) (hflip : m'.flip = m.flip)
    (henable : m'.s.enable = m.s.enable) (hlatched : m'.latched = m.latched)
    (htaken : m'.taken = m.taken) (hrequest : m'.request = m.request)
    (hflag : m'.s.vsyncDone = true → m.s.vsyncDone = true ∨ m.inHandler = true)
    (hhandler : m'.inHandler = true → m.inHandler = true)
    (hpending : isrSeesDone d m'.s.regs.intRaw = true → isrSeesDone d m.s.regs.intRaw = true) :
    Sound d m' := by
  refine ⟨?_, ?_, ?_, ?_⟩
  · rw [hlatched, htaken]
    exact hm.latched
  · rw [hflip, henable]
    exact hm.written
  · rw [hflip]
    intro hin
    have howned := hm.owned hin
    refine ⟨henable.trans howned.enable, ?_, ?_, ?_, ?_⟩
    · rw [htaken]
      intro hdone
      obtain hdone | hhandling := hflag hdone
      · exact howned.flag hdone
      · exact howned.handler hhandling
    · rw [htaken]
      exact fun h => howned.handler (hhandler h)
    · rw [hlatched]
      exact fun h => howned.pending (hpending h)
    · rw [hrequest]
      exact howned.request
  · rw [hflip, htaken]
    exact hm.returned

theorem sound_begin {m : Machine} (hm : Sound d m) (phys : Word) :
    Sound d (m.step K d (.begin phys)) := by
  simp only [Machine.step]
  split
  · refine ⟨nofun, nofun, ?_, nofun⟩
    intro h
    obtain h | h | h := h <;> cases h
  · exact hm

/-- The first half of a run lowers the done flag, but for the first frame of a DPI panel. -/
theorem dispcRunClear_spec {s : State}
    (hfirst : d.panelIf = .dpi → s.isFirstFrame = true → s.vsyncDone = false) :
    Frame s (dispcRunClear d s) ∧ (dispcRunClear d s).regs.intRaw = s.regs.intRaw ∧
      (dispcRunClear d s).vsyncDone = false := by
  unfold dispcRunClear
  cases hpanel : d.panelIf with
  | dpi =>
      dsimp only
      split
      · exact ⟨.refl s, rfl, hfirst hpanel ‹_›⟩
      · exact ⟨⟨rfl, rfl, rfl, rfl, rfl⟩, rfl, rfl⟩
  | dbi => exact ⟨⟨rfl, rfl, rfl, rfl, rfl⟩, rfl, rfl⟩
  | edpi => exact ⟨⟨rfl, rfl, rfl, rfl, rfl⟩, rfl, rfl⟩

/-- The second half asks for the update or the transfer and touches neither what is pending nor the
done flag. -/
theorem dispcRunArm_spec (s : State) :
    Frame s (dispcRunArm d s) ∧ (dispcRunArm d s).regs.intRaw = s.regs.intRaw ∧
      (dispcRunArm d s).vsyncDone = s.vsyncDone := by
  unfold dispcRunArm
  cases d.panelIf with
  | dpi =>
      dsimp only
      split <;> exact ⟨⟨rfl, rfl, rfl, rfl, rfl⟩, rfl, rfl⟩
  | dbi => exact ⟨⟨rfl, rfl, rfl, rfl, rfl⟩, rfl, rfl⟩
  | edpi => exact ⟨⟨rfl, rfl, rfl, rfl, rfl⟩, rfl, rfl⟩

theorem sound_run {m : Machine} (hm : Sound d m) (hok : OwnLatch d m .run) :
    Sound d (m.step K d .run) := by
  have hcode : ∀ phys, flipRefusal phys m.s ≠ 0 →
      Flip.returned (flipRefusal phys m.s) ≠ .returned 0 :=
    fun phys hno h => hno (Flip.returned.inj h)
  show Sound d (m.run d)
  unfold Machine.run
  cases hflip : m.flip with
  | idle => exact hm
  | waiting => exact hm
  | returned ret => exact hm
  | entered phys =>
      dsimp only
      split
      · refine ⟨hm.latched, nofun, ?_, fun h => absurd h (hcode phys ‹_›)⟩
        intro h
        obtain h | h | h := h <;> cases h
      · have hgo : flipRefusal phys m.s = 0 := not_not.mp ‹_›
        refine ⟨hm.latched, fun _ => (flipRefusal_eq_zero.1 hgo).2.1, ?_, nofun⟩
        intro h
        obtain h | h | h := h <;> cases h
  | written =>
      have henable := hm.written hflip
      obtain ⟨hfirst, hpending, hhandler, hrequest⟩ : NothingStale d m := by
        simpa only [OwnLatch, hflip] using hok
      dsimp only
      rw [if_neg (by simp [henable])]
      refine ⟨hm.latched, nofun, fun _ => ?_, nofun⟩
      obtain ⟨hframe, hraw, hlowered⟩ := dispcRunClear_spec hfirst
      refine ⟨hframe.enable.trans henable, ?_, hhandler, ?_, hrequest⟩
      · rw [hlowered]
        exact fun h => absurd h (by decide)
      · rw [hraw]
        exact hpending
  | cleared =>
      have howned := hm.owned (.inl hflip)
      obtain ⟨hframe, hraw, hdone⟩ := dispcRunArm_spec m.s
      refine ⟨hm.latched, nofun, fun _ => ?_, nofun⟩
      refine ⟨hframe.enable.trans howned.enable, ?_, howned.handler, ?_, ?_⟩
      · rw [hdone]
        exact howned.flag
      · rw [hraw]
        exact howned.pending
      · intro hpanel h
        cases hrequest : m.request with
        | none => simp [hrequest] at h
        | some began =>
            simp only [hrequest, Option.getD_some, Option.some.injEq] at h
            exact howned.request hpanel (h ▸ hrequest)
  | armed =>
      have howned := hm.owned (.inr (.inl hflip))
      have hfirst : m.s.isFirstFrame = false := by simpa only [OwnLatch, hflip] using hok
      dsimp only
      rw [if_neg (by simp [hfirst])]
      exact ⟨hm.latched, nofun, fun _ => ⟨howned.enable, howned.flag, howned.handler,
        howned.pending, howned.request⟩, nofun⟩

/-- A wait that ends without the done flag ends by a timeout. -/
theorem sound_wake {m : Machine} (hm : Sound d m) {wake : Wake} (hok : OwnLatch d m (.wake wake)) :
    Sound d (m.step K d (.wake wake)) := by
  simp only [Machine.step, Machine.wake]
  split
  case isFalse => exact hm
  rename_i hwoken
  obtain ⟨hwaiting, hwake⟩ := hwoken
  have howned := hm.owned (.inr (.inr hwaiting))
  refine ⟨hm.latched, nofun, ?_, ?_⟩
  · intro h
    obtain h | h | h := h <;> cases h
  · intro hret
    have hsync : (dispcSync d wake m.s).1 = 0 := by
      by_contra hno
      rw [if_pos hno] at hret
      exact absurd (Flip.returned.inj hret) (by decide)
    cases hdone : m.s.vsyncDone with
    | true => exact howned.flag hdone
    | false =>
        have htimeout : wake = .timeout := by
          cases wake with
          | done => exact absurd ⟨rfl, howned.enable, hdone⟩ hwake
          | timeout => rfl
          | signal => exact absurd ⟨rfl, hdone⟩ (hok hwaiting)
        exact absurd hsync ((dispcSync_fst d wake howned.enable).2 ⟨hdone, htimeout⟩)

theorem raiseDone_same (s : State) :
    (raiseDone d s).enable = s.enable ∧ (raiseDone d s).vsyncDone = s.vsyncDone := by
  unfold raiseDone
  cases d.panelIf <;> exact ⟨rfl, rfl⟩

/-- Once the address is written, whatever completes has taken it over. -/
theorem covers_of_owned {m : Machine} {began : Bool} (haddressed : m.flip.addressed = true)
    (howned : Owned d m) (hrequest : m.request = some began) : covers d m began = true := by
  unfold covers
  cases hpanel : d.panelIf with
  | dpi => exact haddressed
  | dbi | edpi =>
      cases began with
      | true => rfl
      | false => exact absurd hrequest (howned.request (by rw [hpanel]; decide))

theorem sound_complete {m : Machine} (hm : Sound d m) : Sound d (m.step K d .complete) := by
  simp only [Machine.step]
  cases hrequest : m.request with
  | none => exact hm
  | some began =>
      obtain ⟨henable, hdone⟩ := raiseDone_same (d := d) m.s
      refine ⟨?_, ?_, ?_, hm.returned⟩
      · intro htaken
        simp [hm.latched htaken]
      · exact fun h => henable.trans (hm.written h)
      · intro hin
        have howned := hm.owned hin
        have haddressed : m.flip.addressed = true := by
          obtain h | h | h := hin <;> rw [show m.flip = _ from h] <;> rfl
        have hcovers := covers_of_owned haddressed howned hrequest
        refine ⟨henable.trans howned.enable, ?_, howned.handler, ?_, nofun⟩
        · show (raiseDone d m.s).vsyncDone = true → _
          rw [hdone]
          exact howned.flag
        · intro _
          simp [hcovers]

theorem intStatus_seesDone {s : State} (h : isrSeesDone d (intStatus s) = true) :
    isrSeesDone d s.regs.intRaw = true := by
  unfold isrSeesDone intStatus IntBits.inter at *
  cases hpanel : d.panelIf <;> rw [hpanel] at h <;> simp only [Bool.and_eq_true] at h ⊢ <;>
    exact h.1

theorem isrAck_pending {s : State} (status : IntBits)
    (h : isrSeesDone d (isrAck d status s).regs.intRaw = true) :
    isrSeesDone d s.regs.intRaw = true := by
  unfold isrSeesDone isrAck at *
  cases hpanel : d.panelIf <;> rw [hpanel] at h <;> simp only [Bool.and_eq_true] at h ⊢ <;>
    exact h.1

theorem sound_irqEnter {m : Machine} (hm : Sound d m) : Sound d (m.step K d .irqEnter) := by
  simp only [Machine.step]
  split
  · exact hm
  · refine ⟨?_, hm.written, ?_, ?_⟩
    · intro htaken
      simp only [Bool.or_eq_true, Bool.and_eq_true] at htaken
      obtain htaken | hseen := htaken
      · exact hm.latched htaken
      · exact hseen.2
    · intro hin
      have howned := hm.owned hin
      refine ⟨howned.enable, ?_, ?_, ?_, howned.request⟩
      · intro hdone
        simp [howned.flag hdone]
      · intro hseen
        have hlatched := howned.pending (intStatus_seesDone hseen)
        simp [show isrSeesDone d (intStatus m.s) = true from hseen, hlatched]
      · exact fun h => howned.pending (isrAck_pending (intStatus m.s) h)
    · intro hret
      simp [hm.returned hret]

theorem sound_op {m : Machine} (hm : Sound d m) (op : Op) (request inHandler : Bool)
    (raw : IntBits) : Sound d (m.step K d (.op op request inHandler raw)) := by
  simp only [Machine.step]
  split
  · rename_i houtside
    have hnot : ∀ flip : Flip, flip.outside = false → m.flip ≠ flip := by
      intro flip hinside h
      rw [h, hinside] at houtside
      exact absurd houtside (by decide)
    refine ⟨hm.latched, fun h => absurd h (hnot _ rfl), ?_, hm.returned⟩
    intro h
    obtain h | h | h := h <;> exact absurd h (hnot _ rfl)
  · exact hm

theorem sound_step (m : Machine) (e : Event) (hm : Sound d m) (hok : OwnLatch d m e) :
    Sound d (m.step K d e) := by
  have hvsync : (raiseVsync d m.s).enable = m.s.enable ∧
      (raiseVsync d m.s).vsyncDone = m.s.vsyncDone ∧
      isrSeesDone d (raiseVsync d m.s).regs.intRaw = isrSeesDone d m.s.regs.intRaw := by
    unfold raiseVsync isrSeesDone
    cases d.panelIf <;> exact ⟨rfl, rfl, rfl⟩
  cases e with
  | begin phys => exact sound_begin hm phys
  | run => exact sound_run hm hok
  | wake wake => exact sound_wake hm hok
  | complete => exact sound_complete hm
  | vsync =>
      obtain ⟨henable, hdone, hseen⟩ := hvsync
      exact hm.of_same rfl henable rfl rfl rfl (fun h => .inl (hdone ▸ h)) id (fun h => hseen ▸ h)
  | underflow => exact hm.of_same rfl rfl rfl rfl rfl .inl id id
  | irqEnter => exact sound_irqEnter hm
  | irqExit =>
      simp only [Machine.step]
      split
      · exact hm.of_same rfl rfl rfl rfl rfl (fun _ => .inr ‹_›) nofun id
      · exact hm
  | op op request inHandler raw => exact sound_op hm op request inHandler raw

/-! ### Runs -/

/-- Before the first flip, in any state of the driver, the hardware and the handler. -/
def Machine.initial (s : State) (request : Option Bool) (inHandler : Bool) : Machine :=
  ⟨s, .idle, request, inHandler, false, false⟩

/-- In every run whose steps let only the flip's own latch end its wait, from any state of the
controller, a page flip that has returned `0` has been latched. -/
theorem pageflip_latched {s : State} {request : Option Bool} {inHandler : Bool}
    {events : List Event}
    (hevents : Run.EachStep (Machine.step K d) (OwnLatch d) (.initial s request inHandler) events) :
    Run.Always (Machine.step K d) LatchedOnReturn (.initial s request inHandler) events := by
  have hm : Sound d (.initial s request inHandler) := by
    refine ⟨nofun, nofun, fun h => ?_, nofun⟩
    obtain h | h | h := h <;> cases h
  have halways : Run.Always (Machine.step K d) (Sound d) (.initial s request inHandler) events :=
    Run.always_of_eachStep sound_step hm hevents
  exact halways.mono fun _ => latchedOnReturn_of_sound

/-- A running panel with a started overlay, at rest. -/
def restingMachine : Machine :=
  .initial { runningPanel with overlayState := .started } none false

/-- A flip that sleeps until its own update is done, and an operation after it. -/
def latchedRun : List Event :=
  [.begin 0xa0143000, .run, .run, .vsync, .run, .complete, .run, .irqEnter, .irqExit, .wake .done,
    .op (.suspend .done) false false .none]

theorem pageflip_latched_latchedRun :
    Run.Always (Machine.step headerConst dpiPanel) LatchedOnReturn restingMachine latchedRun := by
  apply pageflip_latched
  refine ⟨trivial, trivial, ?_, trivial, trivial, trivial, rfl, trivial, trivial, ?_, trivial,
    trivial⟩
  · refine ⟨fun _ h => ?_, fun h => ?_, fun h => ?_, fun h => absurd rfl h⟩
    · revert h
      decide
    · revert h
      decide
    · revert h
      decide
  · exact fun _ h => nomatch h.1

/-- A signal ends the wait, `dispc_sync` takes the negative result for success and the flip returns
`0` with its update still outstanding. -/
def signalRun : List Event :=
  [.begin 0xa0143000, .run, .run, .run, .run, .wake .signal]

theorem pageflip_signalled_not_latched :
    (Run.final (Machine.step headerConst dpiPanel) restingMachine signalRun).flip = .returned 0 ∧
      (Run.final (Machine.step headerConst dpiPanel) restingMachine signalRun).request = some true ∧
      ¬ Run.Always (Machine.step headerConst dpiPanel) LatchedOnReturn restingMachine
        signalRun := by
  refine ⟨by decide, by decide, fun halways => ?_⟩
  have hlatched := halways.final (by decide)
  revert hlatched
  decide

end LineageA1000.Dispc
