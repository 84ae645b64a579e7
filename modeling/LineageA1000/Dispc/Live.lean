import LineageA1000.Dispc.Overlay
import LineageA1000.Lib.Run

/-!
# Page flips reuse a live configuration

`PAGEFLIP` writes the base address of the OSD layer and trusts the rest of its registers, checking
only the software overlay state. The registers it trusts are those of the last successful pair of
`SET_OVERLAY` and `DISPLAY_OVERLAY`; the run records them, and the invariant ties the overlay state
to what the registers hold.
-/

namespace LineageA1000.Dispc

variable (K : FbConst) (d : Device)

/-! ### Masks -/

section Masks

variable {w : Nat}

theorem clear_raise_raise (c m n k : BitVec w) (hn : c ||| n = c) :
    (((c &&& ~~~m) ||| n) ||| m) &&& ~~~k = (c ||| m) &&& ~~~k := by
  ext i hi
  have hbit := congrArg (fun x => x[i]) hn
  simp only [BitVec.getElem_or, BitVec.getElem_and, BitVec.getElem_not] at hbit ⊢
  grind

theorem or_and_not_or (c m k : BitVec w) :
    ((c ||| k) ||| m) &&& ~~~k = (c ||| m) &&& ~~~k := by
  ext i hi
  simp only [BitVec.getElem_or, BitVec.getElem_and, BitVec.getElem_not]
  grind

theorem and_not_and_not_or (c m k : BitVec w) :
    ((c &&& ~~~k) ||| m) &&& ~~~k = (c ||| m) &&& ~~~k := by
  ext i hi
  simp only [BitVec.getElem_or, BitVec.getElem_and, BitVec.getElem_not]
  grind

theorem or_or_self (c m : BitVec w) : (c ||| m) ||| m = c ||| m := by
  rw [BitVec.or_assoc, BitVec.or_self]

theorem or_or_of_or (c m n : BitVec w) (hn : c ||| n = c) : (c ||| m) ||| n = c ||| m := by
  rw [BitVec.or_assoc, BitVec.or_comm m, ← BitVec.or_assoc, hn]

theorem and_not_or_of_disjoint (c n k : BitVec w) (hn : c ||| n = c) (hnk : n &&& k = 0#w) :
    (c &&& ~~~k) ||| n = c &&& ~~~k := by
  ext i hi
  have hbit := congrArg (fun x => x[i]) hn
  have hdisjoint := congrArg (fun x => x[i]) hnk
  simp only [BitVec.getElem_or, BitVec.getElem_and, BitVec.getElem_not,
    BitVec.getElem_zero] at hbit hdisjoint ⊢
  grind

theorem or_and_mask (c m : BitVec w) : (c ||| m) &&& m = m := by
  ext i hi
  simp only [BitVec.getElem_and, BitVec.getElem_or]
  grind

theorem or_and_of_disjoint (c m k : BitVec w) (hmk : m &&& k = 0#w) :
    (c ||| m) &&& k = c &&& k := by
  rw [BitVec.and_comm, BitVec.and_or_distrib_left, BitVec.and_comm k m, hmk, BitVec.or_zero,
    BitVec.and_comm]

end Masks

/-! ### What the helpers leave alone -/

/-- The layers, the overlay state, the enable flag and the parameters are the same. -/
structure Frame (s s' : State) : Prop where
  osd : s'.regs.osd = s.regs.osd
  img : s'.regs.img = s.regs.img
  overlayState : s'.overlayState = s.overlayState
  enable : s'.enable = s.enable
  params : s'.params = s.params

namespace Frame

theorem refl (s : State) : Frame s s := ⟨rfl, rfl, rfl, rfl, rfl⟩

theorem trans {s s' s'' : State} (h : Frame s s') (h' : Frame s' s'') : Frame s s'' :=
  ⟨h'.osd.trans h.osd, h'.img.trans h.img, h'.overlayState.trans h.overlayState,
    h'.enable.trans h.enable, h'.params.trans h.params⟩

end Frame

theorem frame_updateDone (s : State) : Frame s (updateDone d s) := ⟨rfl, rfl, rfl, rfl, rfl⟩

theorem frame_waitVsyncDone (wake : Wake) (s : State) : Frame s (waitVsyncDone d wake s).2 := by
  unfold waitVsyncDone
  split
  · exact .refl s
  · cases wake with
    | done => exact frame_updateDone d s
    | timeout => exact .refl s
    | signal => exact .refl s

theorem frame_dispcSync (wake : Wake) (s : State) : Frame s (dispcSync d wake s).2 := by
  unfold dispcSync
  split
  · exact .refl s
  · have hwait := frame_waitVsyncDone d wake s
    show Frame s (if (waitVsyncDone d wake s).1 = 0 then _ else _ : Int × State).2
    split
    · exact ⟨hwait.osd, hwait.img, hwait.overlayState, hwait.enable, hwait.params⟩
    · exact hwait

theorem frame_dispcRun (s : State) : Frame s (dispcRun d s) := by
  unfold dispcRun dispcRunArm dispcRunClear
  split
  · exact .refl s
  · cases d.panelIf with
    | dpi =>
        by_cases hfirst : s.isFirstFrame <;> simp only [hfirst, if_true] <;> constructor <;> rfl
    | dbi => exact ⟨rfl, rfl, rfl, rfl, rfl⟩
    | edpi => exact ⟨rfl, rfl, rfl, rfl, rfl⟩

theorem frame_dispcStop (s : State) : Frame s (dispcStop d s) := by
  unfold dispcStop
  cases d.panelIf <;> exact ⟨rfl, rfl, rfl, rfl, rfl⟩

theorem frame_syncUnlessDpi (wake : Wake) (s : State) : Frame s (syncUnlessDpi d wake s) := by
  have hsync := frame_dispcSync d wake { s with vsyncWaiter := s.vsyncWaiter + 1 }
  unfold syncUnlessDpi
  cases d.panelIf with
  | dpi => exact .refl s
  | dbi => exact ⟨hsync.osd, hsync.img, hsync.overlayState, hsync.enable, hsync.params⟩
  | edpi => exact ⟨hsync.osd, hsync.img, hsync.overlayState, hsync.enable, hsync.params⟩

theorem frame_runFrame (s : State) : Frame s (runFrame d s) := by
  have hcount : Frame s { s with frameCount := s.frameCount + 1 } := ⟨rfl, rfl, rfl, rfl, rfl⟩
  exact hcount.trans (frame_dispcRun d _)

theorem frame_displayRun (display : OverlayDisplay) (wakeAfter : Wake) (s : State) :
    Frame s (displayRun d display wakeAfter s) := by
  unfold displayRun
  split
  · exact (frame_runFrame d s).trans (frame_syncUnlessDpi d wakeAfter _)
  · exact frame_runFrame d s

theorem frame_chgClk (s : State) : Frame s (chgClk d s) := by
  have hstop := frame_dispcStop d s
  unfold chgClk
  dsimp only
  split
  · exact hstop.trans (frame_dispcRun d _)
  · exact hstop

theorem frame_refreshSync (wake : Wake) (s : State) : Frame s (refreshSync d wake s) := by
  have hsync := frame_dispcSync d wake { s with vsyncWaiter := s.vsyncWaiter + 1 }
  have hother := frame_syncUnlessDpi d wake s
  unfold refreshSync
  cases d.panelIf with
  | dpi =>
      dsimp only
      split
      · exact ⟨hsync.osd, hsync.img, hsync.overlayState, hsync.enable, hsync.params⟩
      · exact .refl s
  | dbi => exact hother
  | edpi => exact hother

/-- Only a sleep that runs out makes `dispc_sync` fail on an enabled device. -/
theorem dispcSync_fst (wake : Wake) {s : State} (henable : s.enable = true) :
    (dispcSync d wake s).1 ≠ 0 ↔ s.vsyncDone = false ∧ wake = .timeout := by
  unfold dispcSync waitVsyncDone
  rw [if_neg (by simp [henable])]
  cases hdone : s.vsyncDone with
  | true => simp
  | false => cases wake <;> simp [ERESTARTSYS]

/-! ### What a page flip trusts -/

/-- The OSD registers besides the base address; the R/B bit is left out, a page flip sets it again
from the module parameter. -/
structure Config where
  ctrl : Word
  size : Word
  pitch : Word
  disp : Word
  deriving DecidableEq, Repr

def OsdLayer.config (osd : OsdLayer) : Config :=
  ⟨osd.ctrl &&& ~~~bit 15, osd.size, osd.pitch, osd.disp⟩

/-- The configuration of the layer once it is enabled. -/
def OsdLayer.liveConfig (osd : OsdLayer) : Config :=
  ⟨(osd.ctrl ||| bit 0) &&& ~~~bit 15, osd.size, osd.pitch, osd.disp⟩

/-- The driver with the record of its last successful pair of `SET_OVERLAY` and `DISPLAY_OVERLAY`:
`pend` after the first half, `pair` what the OSD registers held after the second. -/
structure Traced where
  dispc : State
  pend : Bool
  pair : Option Config

def Traced.step (s : Traced) (op : Op) : Traced :=
  let (ret, dispc) := exec K d s.dispc op
  match op with
  | .setOverlay info _ =>
      { s with dispc, pend := if ret = 0 ∧ info.layerIndex = K.layerOsd then true else s.pend }
  | .displayOverlay .. =>
      if ret = 0 then
        { dispc, pend := false, pair := if s.pend then some dispc.regs.osd.config else s.pair }
      else { s with dispc }
  | _ => { s with dispc }

/-- A page flip that succeeds leaves the registers of the last pair in force. -/
def FlipKeepsPair (s : Traced) (op : Op) : Prop :=
  match op with
  | .pageflip phys wake =>
      (pageflip d phys wake s.dispc).1 = 0 →
        s.pair = some (pageflip d phys wake s.dispc).2.regs.osd.config
  | _ => True

/-- `SET_OVERLAY` of a well-formed OSD layer. -/
def OsdAccepted (info : OverlayInfo) : Prop :=
  info.layerIndex = K.layerOsd ∧ info.dataType < K.typeLimit ∧ K.typeYuv400 < info.dataType ∧
    info.yEndian < K.endianLimit

/-- The steps that leave no registers behind the overlay state that no pair has written. -/
def KeepsPair (s : Traced) (op : Op) : Prop :=
  match op with
  | .setOverlay info wake =>
      s.dispc.enable = false ∨ (s.dispc.vsyncDone = false ∧ wake = .timeout) ∨
        s.dispc.overlayState = .on ∨ OsdAccepted K info
  | .displayOverlay display _ _ =>
      s.pend = true → s.dispc.enable = true →
        display.layerIndex &&& K.layerOsd ≠ 0 ∧ s.dispc.regs.osd.base ≠ 0
  | .pageflip phys _ => flipRefusal phys s.dispc = 0 → s.dispc.overlayState ≠ .on
  | .refresh .. => s.dispc.enable = true → s.dispc.overlayState ≠ .on
  | .resume .. => s.dispc.enable = false → s.dispc.overlayState = .off
  | _ => True

instance (s : Traced) (op : Op) : Decidable (FlipKeepsPair d s op) :=
  match op with
  | .pageflip phys wake =>
      inferInstanceAs (Decidable ((pageflip d phys wake s.dispc).1 = 0 →
        s.pair = some (pageflip d phys wake s.dispc).2.regs.osd.config))
  | .setOverlay .. | .disableOverlay | .displayOverlay .. | .refresh .. | .suspend _ | .resume ..
  | .chgClk | .updateDone | .setParams _ => inferInstanceAs (Decidable True)

instance (info : OverlayInfo) : Decidable (OsdAccepted K info) :=
  inferInstanceAs (Decidable (_ ∧ _ ∧ _ ∧ _))

instance (s : Traced) (op : Op) : Decidable (KeepsPair K s op) :=
  match op with
  | .setOverlay info wake =>
      inferInstanceAs (Decidable (s.dispc.enable = false ∨
        (s.dispc.vsyncDone = false ∧ wake = .timeout) ∨ s.dispc.overlayState = .on ∨
          OsdAccepted K info))
  | .displayOverlay display _ _ =>
      inferInstanceAs (Decidable (s.pend = true → s.dispc.enable = true →
        display.layerIndex &&& K.layerOsd ≠ 0 ∧ s.dispc.regs.osd.base ≠ 0))
  | .pageflip phys _ =>
      inferInstanceAs (Decidable (flipRefusal phys s.dispc = 0 → s.dispc.overlayState ≠ .on))
  | .refresh .. =>
      inferInstanceAs (Decidable (s.dispc.enable = true → s.dispc.overlayState ≠ .on))
  | .resume .. =>
      inferInstanceAs (Decidable (s.dispc.enable = false → s.dispc.overlayState = .off))
  | .disableOverlay | .suspend _ | .chgClk | .updateDone | .setParams _ =>
      inferInstanceAs (Decidable True)

/-- What the overlay state says of the registers. -/
def Tied (s : Traced) : Prop :=
  match s.dispc.overlayState with
  | .off => s.pend = false
  | .on => s.dispc.enable = true → s.pend = true
  | .started =>
      s.pend = false ∧ s.dispc.regs.osd.base ≠ 0 ∧
        s.dispc.regs.osd.ctrl ||| bit 2 = s.dispc.regs.osd.ctrl ∧
        s.pair = some s.dispc.regs.osd.liveConfig

variable {K} {d}

/-- Operations that change none of the fields the invariant reads. -/
theorem Tied.of_frame {s : Traced} (hs : Tied s) {dispc : State} (hframe : Frame s.dispc dispc) :
    Tied { s with dispc } := by
  unfold Tied at hs ⊢
  rw [hframe.overlayState, hframe.osd, hframe.enable]
  exact hs

/-! ### `SET_OVERLAY` -/

theorem openAndConfigure_frame (info : OverlayInfo) (s : State) :
    (openAndConfigure K d info s).2.overlayState = .on ∧
      (openAndConfigure K d info s).2.enable = s.enable := by
  have hopen : ∀ s' : State, s'.overlayState = .on →
      (overlayImgConfigure K info s').2.overlayState = .on ∧
        (overlayImgConfigure K info s').2.enable = s'.enable ∧
        (overlayOsdConfigure K info s').2.overlayState = .on ∧
        (overlayOsdConfigure K info s').2.enable = s'.enable := by
    intro s' hon
    unfold overlayImgConfigure overlayOsdConfigure
    rw [if_neg (not_not.mpr hon), if_neg (not_not.mpr hon)]
    refine ⟨?_, ?_, ?_, ?_⟩ <;> split <;> (try split) <;> first | exact hon | rfl
  have hclose : (overlayClose d s).enable = s.enable := by
    unfold overlayClose
    split <;> rfl
  have hstate : (overlayOpen (if s.overlayState = .started then overlayClose d s else s)).enable
      = s.enable := by
    split
    · exact hclose
    · rfl
  obtain ⟨himg, himgEnable, hosd, hosdEnable⟩ :=
    hopen (overlayOpen (if s.overlayState = .started then overlayClose d s else s)) rfl
  unfold openAndConfigure
  dsimp only
  split
  · exact ⟨himg, himgEnable.trans hstate⟩
  · split
    · exact ⟨hosd, hosdEnable.trans hstate⟩
    · exact ⟨rfl, hstate⟩

theorem openAndConfigure_accepted {info : OverlayInfo} (hinfo : OsdAccepted K info) (s : State) :
    (openAndConfigure K d info s).1 = 0 := by
  obtain ⟨hlayer, hlimit, hyuv, hendian⟩ := hinfo
  unfold openAndConfigure overlayOsdConfigure
  dsimp only
  rw [if_neg (hlayer ▸ K.layers_ne.symm), if_pos hlayer, if_neg (by simp [overlayOpen]),
    if_neg (by omega), if_neg (by omega)]

theorem tied_setOverlay {s : Traced} (hs : Tied s) {info : OverlayInfo} {wake : Wake}
    (hok : KeepsPair K s (.setOverlay info wake)) :
    Tied (s.step K d (.setOverlay info wake)) := by
  by_cases henable : s.dispc.enable = true
  case neg =>
    have hret : enableOverlay K d info wake s.dispc = (-1, s.dispc) := by
      unfold enableOverlay
      rw [if_pos (by simpa using henable)]
    simp only [Traced.step, exec, hret]
    exact hs
  by_cases hsync : (dispcSync d wake s.dispc).1 = 0
  case neg =>
    have hret : enableOverlay K d info wake s.dispc = (-1, (dispcSync d wake s.dispc).2) := by
      unfold enableOverlay
      rw [if_neg (by simp [henable])]
      dsimp only
      rw [if_pos hsync]
    simp only [Traced.step, exec, hret]
    exact hs.of_frame (frame_dispcSync d wake s.dispc)
  have hret : enableOverlay K d info wake s.dispc =
      (if (openAndConfigure K d info (dispcSync d wake s.dispc).2).1 ≠ 0 then -1 else 0,
        (openAndConfigure K d info (dispcSync d wake s.dispc).2).2) := by
    unfold enableOverlay
    rw [if_neg (by simp [henable])]
    dsimp only
    rw [if_neg (not_not.mpr hsync)]
  simp only [Traced.step, exec, hret]
  unfold Tied
  obtain ⟨hon, -⟩ := openAndConfigure_frame (K := K) (d := d) info (dispcSync d wake s.dispc).2
  rw [hon]
  intro _
  -- Either this call has configured the layer, or an earlier one had and no pair followed.
  have hpend : s.pend = true ∨ OsdAccepted K info := by
    obtain hdisabled | htimeout | hwasOn | haccepted := hok
    · exact absurd henable (by simp [hdisabled])
    · exact absurd hsync ((dispcSync_fst d wake henable).2 htimeout)
    · unfold Tied at hs
      rw [hwasOn] at hs
      exact .inl (hs henable)
    · exact .inr haccepted
  obtain hpend | haccepted := hpend
  · simp [hpend]
  · simp [openAndConfigure_accepted haccepted, haccepted.1]

/-! ### `DISPLAY_OVERLAY` -/

/-- A configured overlay with a base address starts; the OSD layer is enabled if it is asked for. -/
theorem overlayStart_of_base (layerIndex : Word) {s : State} (hon : s.overlayState = .on)
    (hbase : s.regs.osd.base ≠ 0) :
    (overlayStart K layerIndex s).1 = 0 ∧
      (overlayStart K layerIndex s).2.overlayState = .started ∧
      (overlayStart K layerIndex s).2.enable = s.enable ∧
      (overlayStart K layerIndex s).2.regs.osd =
        { s.regs.osd with
          ctrl := if layerIndex &&& K.layerOsd ≠ 0 then s.regs.osd.ctrl ||| bit 2 ||| bit 0
            else s.regs.osd.ctrl ||| bit 2
          alpha := 0xff } := by
  unfold overlayStart
  rw [if_neg (not_not.mpr hon), if_neg (fun h => hbase h.2)]
  refine ⟨rfl, rfl, rfl, ?_⟩
  simp only [hbase, ne_eq, not_false_eq_true, and_true]

/-- The result of `DISPLAY_OVERLAY` is always `0`. -/
theorem displayOverlay_fst (display : OverlayDisplay) (wake wakeAfter : Wake) (s : State) :
    (displayOverlay K d display wake wakeAfter s).1 = 0 := by
  unfold displayOverlay
  split
  · rfl
  · dsimp only
    split
    · split <;> rfl
    · rfl

/-- On an enabled device the overlay is off afterwards if it was off, and started if it had a base
address; the OSD registers are those `overlay_start` leaves. -/
theorem displayOverlay_frame (display : OverlayDisplay) (wake wakeAfter : Wake) {s : State}
    (henable : s.enable = true) (hbase : s.overlayState ≠ .off → s.regs.osd.base ≠ 0) :
    (displayOverlay K d display wake wakeAfter s).2.overlayState =
        (if s.overlayState = .off then .off else .started) ∧
      (s.overlayState ≠ .off →
        (displayOverlay K d display wake wakeAfter s).2.regs.osd =
          { s.regs.osd with
            ctrl := if display.layerIndex &&& K.layerOsd ≠ 0 then
                (s.regs.osd.ctrl &&& ~~~bit 0) ||| bit 2 ||| bit 0
              else (s.regs.osd.ctrl &&& ~~~bit 0) ||| bit 2
            alpha := 0xff }) := by
  have hsync := frame_syncUnlessDpi d wake s
  have hafter := frame_displayRun d display wakeAfter
  unfold displayOverlay
  rw [if_neg (by simp [henable])]
  dsimp only
  by_cases hoff : s.overlayState = .off
  · have hprepared : (displayPrepare d (syncUnlessDpi d wake s)).overlayState = .off := by
      simp [displayPrepare, hsync.overlayState, hoff]
    rw [if_neg (by simp [hprepared]), if_pos hoff]
    exact ⟨(hafter _).overlayState.trans hprepared, fun h => absurd hoff h⟩
  · have hprepared : (displayPrepare d (syncUnlessDpi d wake s)).overlayState = .on := by
      simp only [displayPrepare, hsync.overlayState]
      cases hstate : s.overlayState with
      | off => exact absurd hstate hoff
      | on => rfl
      | started => rfl
    have hpreparedBase : (displayPrepare d (syncUnlessDpi d wake s)).regs.osd.base ≠ 0 := by
      simp only [displayPrepare, hsync.osd]
      exact hbase hoff
    obtain ⟨hret, hstarted, -, hosd⟩ := overlayStart_of_base (K := K)
      display.layerIndex hprepared hpreparedBase
    rw [if_pos hprepared, if_neg (not_not.mpr hret), if_neg hoff]
    refine ⟨(hafter _).overlayState.trans hstarted, fun _ => ?_⟩
    rw [(hafter _).osd, hosd]
    simp only [displayPrepare, hsync.osd]

theorem tied_displayOverlay {s : Traced} (hs : Tied s) {display : OverlayDisplay}
    {wake wakeAfter : Wake} (hok : KeepsPair K s (.displayOverlay display wake wakeAfter)) :
    Tied (s.step K d (.displayOverlay display wake wakeAfter)) := by
  simp only [Traced.step, exec, displayOverlay_fst, if_true]
  unfold Tied at hs ⊢
  dsimp only
  by_cases henable : s.dispc.enable = true
  case neg =>
    have hsame : displayOverlay K d display wake wakeAfter s.dispc = (0, s.dispc) := by
      unfold displayOverlay
      rw [if_pos (by simpa using henable)]
    rw [hsame]
    dsimp only
    cases hstate : s.dispc.overlayState with
    | off => rfl
    | on => exact fun h => absurd h henable
    | started =>
        rw [hstate] at hs
        obtain ⟨hpend, hregs⟩ := hs
        simp only [hpend, Bool.false_eq_true, if_false]
        exact ⟨trivial, hregs⟩
  have hbase : s.dispc.overlayState ≠ .off → s.dispc.regs.osd.base ≠ 0 := by
    intro hoff
    cases hstate : s.dispc.overlayState with
    | off => exact absurd hstate hoff
    | on =>
        rw [hstate] at hs
        exact (hok (hs henable) henable).2
    | started =>
        rw [hstate] at hs
        exact hs.2.1
  obtain ⟨hafter, hosd⟩ := displayOverlay_frame (K := K) (d := d) display wake wakeAfter
    henable hbase
  rw [hafter]
  cases hstate : s.dispc.overlayState with
  | off => rfl
  | on =>
      -- The second half of a pair: what it leaves is the record.
      rw [hstate] at hs hosd
      have hpend := hs henable
      have hlayer := (hok hpend henable).1
      rw [hosd (by decide)]
      refine ⟨rfl, hbase (by rw [hstate]; decide), ?_, ?_⟩
      · simp only [hlayer, ne_eq, not_false_eq_true, if_true]
        exact or_or_of_or _ _ _ (or_or_self _ _)
      · simp only [hlayer, ne_eq, not_false_eq_true, if_true, hpend, OsdLayer.config,
          OsdLayer.liveConfig, or_or_self]
  | started =>
      -- The layer is switched off and on again; the record stands.
      rw [hstate] at hs hosd
      obtain ⟨hpend, hregs, hblock, hpair⟩ := hs
      rw [hosd (by decide)]
      refine ⟨rfl, hregs, ?_, ?_⟩
      · dsimp only
        split
        · exact or_or_of_or _ _ _ (or_or_self _ _)
        · exact or_or_self _ _
      · simp only [hpend, Bool.false_eq_true, if_false, hpair, OsdLayer.liveConfig]
        split
        · rw [or_or_self, clear_raise_raise _ _ _ _ hblock]
        · rw [clear_raise_raise _ _ _ _ hblock]

/-! ### `PAGEFLIP` -/

/-- A flip that goes on leaves the layer enabled at its address with its configuration. -/
theorem pageflip_frame {phys : Word} (wake : Wake) {s : State} (hgo : flipRefusal phys s = 0) :
    (pageflip d phys wake s).2.overlayState = s.overlayState ∧
      (pageflip d phys wake s).2.enable = s.enable ∧
      (pageflip d phys wake s).2.regs.osd = (flipWrites phys s).regs.osd := by
  have hrun := frame_dispcRun d (flipWrites phys s)
  have hwait : Frame (dispcRun d (flipWrites phys s))
      (flipWait d wake (dispcRun d (flipWrites phys s))).2 := by
    unfold flipWait
    split
    · exact .refl _
    · exact frame_dispcSync d wake _
  have hframe := hrun.trans hwait
  unfold pageflip
  rw [if_neg (not_not.mpr hgo)]
  exact ⟨hframe.overlayState, hframe.enable, hframe.osd⟩

theorem pageflip_refused {phys : Word} (wake : Wake) {s : State} (hno : flipRefusal phys s ≠ 0) :
    pageflip d phys wake s = (flipRefusal phys s, s) := by
  unfold pageflip
  rw [if_pos hno]

theorem flipRefusal_eq_zero {phys : Word} {s : State} :
    flipRefusal phys s = 0 ↔ phys ≠ 0 ∧ s.enable = true ∧ s.overlayState ≠ .off := by
  have hcodes : -EINVAL ≠ 0 ∧ -EPERM ≠ 0 ∧ -EAGAIN ≠ 0 := by decide
  unfold flipRefusal
  split
  · exact ⟨fun h => absurd h hcodes.1, fun h => absurd ‹phys = 0› h.1⟩
  · split
    · exact ⟨fun h => absurd h hcodes.2.1, fun h => absurd h.2.1 (by simp [‹s.enable = false›])⟩
    · have henable : s.enable = true := by simpa using ‹¬ s.enable = false›
      cases hstate : s.overlayState with
      | off =>
          rw [if_pos (by decide)]
          exact ⟨fun h => absurd h hcodes.2.2, fun h => absurd rfl h.2.2⟩
      | on =>
          rw [if_neg (by decide)]
          exact ⟨fun _ => ⟨‹¬ phys = 0›, henable, by decide⟩, fun _ => rfl⟩
      | started =>
          rw [if_neg (by decide)]
          exact ⟨fun _ => ⟨‹¬ phys = 0›, henable, by decide⟩, fun _ => rfl⟩

/-- The flip's writes keep a live configuration: only the R/B bit may differ. -/
theorem flipWrites_osd (phys : Word) {s : State}
    (hblock : s.regs.osd.ctrl ||| bit 2 = s.regs.osd.ctrl) :
    (flipWrites phys s).regs.osd.liveConfig = s.regs.osd.liveConfig ∧
      (flipWrites phys s).regs.osd.config = s.regs.osd.liveConfig ∧
      (flipWrites phys s).regs.osd.ctrl ||| bit 2 = (flipWrites phys s).regs.osd.ctrl ∧
      (flipWrites phys s).regs.osd.base = phys := by
  have hdisjoint : bit 2 &&& bit 15 = 0#32 := by decide
  unfold flipWrites OsdLayer.liveConfig OsdLayer.config
  dsimp only
  refine ⟨?_, ?_, ?_, rfl⟩
  · rw [or_or_self]
    split
    · split
      · rw [or_and_not_or]
      · rw [and_not_and_not_or]
    · rfl
  · split
    · split
      · rw [or_and_not_or]
      · rw [and_not_and_not_or]
    · rfl
  · apply or_or_of_or
    split
    · split
      · exact or_or_of_or _ _ _ hblock
      · exact and_not_or_of_disjoint _ _ _ hblock hdisjoint
    · exact hblock

theorem started_of_flip {s : Traced} {phys : Word} {wake : Wake}
    (hok : KeepsPair K s (.pageflip phys wake)) (hgo : flipRefusal phys s.dispc = 0) :
    s.dispc.overlayState = .started := by
  have hon := hok hgo
  have hoff := (flipRefusal_eq_zero.1 hgo).2.2
  cases hstate : s.dispc.overlayState with
  | off => exact absurd hstate hoff
  | on => exact absurd hstate hon
  | started => rfl

theorem tied_pageflip {s : Traced} (hs : Tied s) {phys : Word} {wake : Wake}
    (hok : KeepsPair K s (.pageflip phys wake)) : Tied (s.step K d (.pageflip phys wake)) := by
  simp only [Traced.step, exec]
  by_cases hgo : flipRefusal phys s.dispc = 0
  · have hstarted := started_of_flip hok hgo
    obtain ⟨hstate, -, hosd⟩ := pageflip_frame (d := d) wake hgo
    unfold Tied at hs ⊢
    rw [hstarted] at hs
    dsimp only
    rw [hstate, hstarted, hosd]
    obtain ⟨hpend, -, hblock, hpair⟩ := hs
    obtain ⟨hlive, -, hblock', hbase⟩ := flipWrites_osd phys hblock
    refine ⟨hpend, ?_, hblock', ?_⟩
    · rw [hbase]
      exact (flipRefusal_eq_zero.1 hgo).1
    · rw [hpair, hlive]
  · rw [pageflip_refused wake hgo]
    exact hs

theorem flipKeepsPair_of_tied {s : Traced} (hs : Tied s) {op : Op} (hok : KeepsPair K s op) :
    FlipKeepsPair d s op := by
  cases op with
  | pageflip phys wake =>
      intro hret
      have hgo : flipRefusal phys s.dispc = 0 := by
        by_contra hno
        rw [pageflip_refused wake hno] at hret
        exact hno hret
      have hstarted := started_of_flip hok hgo
      unfold Tied at hs
      rw [hstarted] at hs
      obtain ⟨-, -, hblock, hpair⟩ := hs
      rw [(pageflip_frame wake hgo).2.2, (flipWrites_osd phys hblock).2.1, hpair]
  | _ => trivial

/-! ### Pan, power and frequency -/

theorem tied_of_off {s : Traced} (hoff : s.dispc.overlayState = .off) :
    Tied s ↔ s.pend = false := by
  unfold Tied
  rw [hoff]

theorem pend_of_not_on {s : Traced} (hs : Tied s) (hon : s.dispc.overlayState ≠ .on) :
    s.pend = false := by
  unfold Tied at hs
  cases hstate : s.dispc.overlayState with
  | off => rwa [hstate] at hs
  | on => exact absurd hstate hon
  | started =>
      rw [hstate] at hs
      exact hs.1

/-- A pan closes a started overlay. -/
theorem refresh_overlayState {yoffset : Word} {wake : Wake} {s : State} (henable : s.enable = true)
    (hon : s.overlayState ≠ .on) : (refresh K d yoffset wake s).2.overlayState = .off := by
  have hsync := frame_refreshSync d wake s
  have hwrites : (refreshWrites d yoffset (refreshSync d wake s)).overlayState = .off := by
    unfold refreshWrites
    dsimp only
    rw [hsync.overlayState]
    cases hstate : s.overlayState with
    | off =>
        rw [if_neg (by decide)]
    | on => exact absurd hstate hon
    | started =>
        rw [if_pos rfl, overlayClose, if_neg (fun h => by cases h)]
  unfold refresh
  rw [if_neg (by simp [henable])]
  dsimp only
  rw [if_neg (by simp [hwrites])]
  exact (frame_runFrame d _).overlayState.trans hwrites

theorem tied_refresh {s : Traced} (hs : Tied s) {yoffset : Word} {wake : Wake}
    (hok : KeepsPair K s (.refresh yoffset wake)) : Tied (s.step K d (.refresh yoffset wake)) := by
  simp only [Traced.step, exec]
  by_cases henable : s.dispc.enable = true
  · have hon := hok henable
    have hoff : (refresh K d yoffset wake s.dispc).2.overlayState = .off :=
      refresh_overlayState henable hon
    have hpend := pend_of_not_on hs hon
    exact (tied_of_off hoff).2 hpend
  · have hsame : refresh K d yoffset wake s.dispc = (0, s.dispc) := by
      unfold refresh
      rw [if_pos (by simpa using henable)]
    rw [hsame]
    exact hs

/-- Suspending keeps the layers and the overlay state and disables the device. -/
theorem tied_suspend {s : Traced} (hs : Tied s) {wake : Wake} :
    Tied (s.step K d (.suspend wake)) := by
  have hsync := frame_syncUnlessDpi d wake s.dispc
  simp only [Traced.step, exec, suspend]
  split
  · exact hs
  · have hstop := frame_dispcStop d { syncUnlessDpi d wake s.dispc with enable := false }
    unfold Tied at hs ⊢
    dsimp only
    rw [hstop.overlayState, hstop.osd, hstop.enable, hsync.overlayState, hsync.osd]
    cases hstate : s.dispc.overlayState with
    | off => rwa [hstate] at hs
    | on => exact fun h => absurd h Bool.false_ne_true
    | started => rwa [hstate] at hs

theorem resume_overlayState (clkOk : Bool) (wake : Wake) (s : State) :
    (resume d clkOk wake s).2.overlayState = s.overlayState := by
  have hinit (s : State) : (dispcInit d s).overlayState = s.overlayState := by
    unfold dispcInit
    cases s.isFirstFrame <;> cases d.panelIf <;> rfl
  have hclean (s : State) : (cleanLcd d wake s).overlayState = s.overlayState := by
    unfold cleanLcd
    split
    · exact (frame_dispcSync d wake _).overlayState.trans (frame_dispcRun d _).overlayState
    · rfl
  unfold resume
  dsimp only
  split
  · have hearly : (dispcInit d (if clkOk then dispcEarlyInit d { s with vsyncDone := true }
        else { s with vsyncDone := true })).overlayState = s.overlayState := by
      rw [hinit]
      cases clkOk <;> rfl
    dsimp only
    split
    · rw [hclean]
      exact hearly
    · exact hearly
  · rfl

theorem tied_resume {s : Traced} (hs : Tied s) {clkOk : Bool} {wake : Wake}
    (hok : KeepsPair K s (.resume clkOk wake)) : Tied (s.step K d (.resume clkOk wake)) := by
  simp only [Traced.step, exec]
  cases henable : s.dispc.enable with
  | true =>
      have hsame : resume d clkOk wake s.dispc = (0, s.dispc) := by
        unfold resume
        rw [if_neg (by simp [henable])]
      rw [hsame]
      exact hs
  | false =>
      have hoff := hok henable
      have hoff' : (resume d clkOk wake s.dispc).2.overlayState = .off :=
        (resume_overlayState clkOk wake s.dispc).trans hoff
      apply (tied_of_off hoff').2
      exact (tied_of_off hoff).1 hs

/-! ### Runs -/

theorem tied_step (s : Traced) (op : Op) (hs : Tied s) (hok : KeepsPair K s op) :
    Tied (s.step K d op) := by
  cases op with
  | setOverlay info wake => exact tied_setOverlay hs hok
  | disableOverlay => exact hs
  | displayOverlay display wake wakeAfter => exact tied_displayOverlay hs hok
  | pageflip phys wake => exact tied_pageflip hs hok
  | refresh yoffset wake => exact tied_refresh hs hok
  | suspend wake => exact tied_suspend hs
  | resume clkOk wake => exact tied_resume hs hok
  | chgClk => exact hs.of_frame (frame_chgClk d s.dispc)
  | updateDone => exact hs.of_frame (frame_updateDone d s.dispc)
  | setParams params => exact hs

/-- Before the first overlay operation. -/
def Traced.initial (s : State) : Traced := ⟨s, false, none⟩

/-- In every run, from a closed overlay, whose steps keep the registers behind the overlay state,
every page flip that returns `0` leaves the OSD registers of the last successful pair in force. -/
theorem pageflip_keeps_pair {s : State} (hoff : s.overlayState = .off) {ops : List Op}
    (hops : Run.EachStep (Traced.step K d) (KeepsPair K) (.initial s) ops) :
    Run.EachStep (Traced.step K d) (FlipKeepsPair d) (.initial s) ops := by
  have hinitial : Tied (.initial s) := (tied_of_off hoff).2 rfl
  have halways : Run.Always (Traced.step K d) Tied (.initial s) ops :=
    Run.always_of_eachStep tied_step hinitial hops
  exact Run.eachStep_of_always_of_eachStep (fun s op hs hok => flipKeepsPair_of_tied hs hok)
    halways hops

/-! ### One panel -/

/-- The header's constants, the OSD layer and RGB888 as the framebuffer shim mirrors them. -/
def headerConst : FbConst := ⟨1, 2, by decide, 2, 3, 7, 4⟩

def zeroRegs : Regs :=
  ⟨0, 0, 0, 0, 0, .none, .none, ⟨0, 0, 0, 0, 0, 0, 0⟩, ⟨0, 0, 0, 0, 0, 0⟩⟩

/-- A DPI panel of 480 by 800 pixels. -/
def dpiPanel : Device where
  panelIf := .dpi
  xres := 480
  yres := 800
  bitsPerPixel := 32
  smemStart := 0x9f000000
  lineLength := 1920
  panelWidth := 480
  panelHeight := 800
  isCleanLcd := false
  resetRegs := zeroRegs

/-- The panel once it has shown its first frame. -/
def runningPanel : State where
  regs := { zeroRegs with intEn := ⟨true, true, false, false, true⟩ }
  shdwOsdBase := 0x9f000000
  enable := true
  isFirstFrame := false
  vsyncWaiter := 0
  vsyncDone := true
  waitforVsyncDone := false
  overlayState := .off
  frameCount := 0
  params := ⟨-1, 0, -1, -1⟩

def osdInfo : OverlayInfo := ⟨2, 3, 0, 0, false, ⟨0, 0, 480, 800⟩, 0x9ffcc000⟩

/-- A pair, a flip, a pan that closes the overlay and a second pair with its flip. -/
def pairsRun : List Op :=
  [.setOverlay osdInfo .done, .displayOverlay ⟨2, 0⟩ .done .done, .pageflip 0xa0143000 .done,
    .refresh 800 .done, .pageflip 0x9ffcc000 .done, .setOverlay osdInfo .done,
    .displayOverlay ⟨2, 0⟩ .done .done, .pageflip 0xa0143000 .done]

theorem pageflip_keeps_pair_pairsRun :
    Run.EachStep (Traced.step headerConst dpiPanel) (FlipKeepsPair dpiPanel) (.initial runningPanel)
      pairsRun :=
  pageflip_keeps_pair (by decide) (by decide)

/-- Suspend and resume reset the layer and leave the overlay started. -/
def resumedRun : List Op :=
  [.setOverlay { osdInfo with rect := ⟨0, 40, 480, 720⟩ } .done,
    .displayOverlay ⟨2, 0⟩ .done .done, .suspend .done, .resume true .done]

theorem pageflip_after_resume :
    (pageflip dpiPanel 0xa0143000 .done
        (Run.final (Traced.step headerConst dpiPanel) (.initial runningPanel)
          resumedRun).dispc).1 = 0 ∧
      ¬ Run.EachStep (Traced.step headerConst dpiPanel) (FlipKeepsPair dpiPanel)
        (.initial runningPanel) (resumedRun ++ [.pageflip 0xa0143000 .done]) := by
  decide

end LineageA1000.Dispc
