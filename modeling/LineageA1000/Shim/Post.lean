import LineageA1000.Dispc.Live
import LineageA1000.Shim.Interpose
import LineageA1000.Lib.Run

/-!
# Posting without a copy

The shim's `post` hands the frame's buffer to the display controller: by `PAGEFLIP` once a layer is
configured, by `SET_OVERLAY` and `DISPLAY_OVERLAY` otherwise, and by the original `post` when
anything fails. Its ioctls pass through the interposer, and other operations come between them. Each
post should show its buffer by exactly one of the two routes.
-/

namespace LineageA1000.Shim

open Dispc (OverlayInfo Device FbConst Wake Op)

variable (K : FbConst) (d : Device)

/-! ### The ioctls -/

/-- An error an ioctl meets before it reaches the driver. -/
abbrev Fault := Option {e : Int // 0 < e}

/-- A frame buffer ioctl as the kernel answers it: `sprdfb_ioctl` passes the driver's result on. -/
def fbIoctl (fault : Fault) (op : Op) (s : Dispc.State) : Int × Dispc.State :=
  match fault with
  | some e => (-e.1, s)
  | none => Dispc.exec K d s op

def runOps (ops : List Op) (s : Dispc.State) : Dispc.State :=
  ops.foldl (fun s op => (Dispc.exec K d s op).2) s

/-! ### The physical address of a buffer -/

structure Handle where
  fds : List Int
  deriving DecidableEq, Repr

/-- What ION answers for a descriptor: a physical address and a size, or an error. -/
abbrev Ion := Int → Option (Word × Nat)

/-- `a1000_phys_of`: the first descriptor ION knows with room for a frame; zero if there is none. -/
def physOf (ion : Option Ion) (want : Nat) (h : Handle) : Word :=
  match ion with
  | none => 0
  | some answer =>
      match h.fds.findSome? fun fd =>
          (answer fd).filter fun a => a.1 != 0 && decide (want ≤ a.2) with
      | none => 0
      | some a => a.1

/-! ### The post -/

/-- The state of the shim: `off`, `flip`, `noflip` and `sync` are its `g_zc_` flags, `realPost` says
that the device had a `post` of its own. -/
structure Fb where
  off : Bool
  fdOpen : Bool
  flip : Bool
  noflip : Bool
  sync : Bool
  slowInRow : Nat
  w : BitVec 16
  h : BitVec 16
  frame : Nat
  realPost : Bool
  pin : Pin
  mode : ColourMode
  deriving DecidableEq, Repr

/-- How the wait for the vertical sync goes. -/
inductive VsyncWait where
  | failed
  | slow
  | prompt
  deriving DecidableEq, Repr

/-- A call of `post`: the buffer, and what the world answers during the call. The operations in
`beforeSet` and `beforeDisplay` are other callers'. -/
structure Post where
  buffer : Handle
  ion : Option Ion
  flipFault : Fault
  flipWake : Wake
  beforeSet : List Op
  setFault : Fault
  setWake : Wake
  beforeDisplay : List Op
  displayFault : Fault
  displayWake : Wake
  vsync : VsyncWait
  /-- What the original `post` returns for the buffer. -/
  realResult : Int

/-- The result, the buffers given to the original `post`, and for each ioctl on the way whether it
has made the driver show the buffer. -/
structure Outcome where
  ret : Int
  real : List Handle
  shown : List Bool

/-- The controller is on and scans the OSD layer, enabled, from the address. -/
def Scans (s : Dispc.State) (phys : Word) : Prop :=
  s.enable = true ∧ s.regs.osd.base = phys ∧ s.regs.osd.ctrl &&& Dispc.bit 0 = Dispc.bit 0

instance (s : Dispc.State) (phys : Word) : Decidable (Scans s phys) :=
  inferInstanceAs (Decidable (_ ∧ _ ∧ _))

/-- `a1000_wait_vsync`: five slow waits in a row, or a failing one, end the waiting for good. -/
def waitVsync (vsync : VsyncWait) (f : Fb) : Fb :=
  if f.sync then
    match vsync with
    | .failed => { f with sync := false }
    | .slow => { f with slowInRow := f.slowInRow + 1, sync := decide (f.slowInRow + 1 < 5) }
    | .prompt => { f with slowInRow := 0 }
  else f

def fallback (p : Post) (f : Fb) (s : Dispc.State) (shown : List Bool) :
    Fb × Dispc.State × Outcome :=
  (f, s, if f.realPost then ⟨p.realResult, [p.buffer], shown⟩ else ⟨0, [], shown⟩)

/-- The argument of the shim's `SET_OVERLAY` before the interposer. -/
def setArg (f : Fb) (phys : Word) : OverlayInfo :=
  ⟨SPRD_LAYER_OSD, SPRD_DATA_FORMAT_RGB888, 0, 0, false, ⟨0, 0, f.w, f.h⟩, phys⟩

abbrev displayArg : Dispc.OverlayDisplay := ⟨SPRD_LAYER_OSD, 0⟩

/-- The `SET_OVERLAY` of the long path: the result and the driver's state. -/
def setIoctl (p : Post) (f : Fb) (phys : Word) (s : Dispc.State) : Int × Dispc.State :=
  fbIoctl K d p.setFault (.setOverlay (osdArg f.pin f.mode (setArg f phys)).2 p.setWake)
    (runOps K d p.beforeSet s)

/-- The state the `DISPLAY_OVERLAY` of the long path finds. -/
def displayState (p : Post) (f : Fb) (phys : Word) (s : Dispc.State) : Dispc.State :=
  runOps K d p.beforeDisplay (setIoctl K d p f phys s).2

def displayIoctl (p : Post) (s : Dispc.State) : Int × Dispc.State :=
  fbIoctl K d p.displayFault (.displayOverlay displayArg p.displayWake p.displayWake) s

/-- `SET_OVERLAY` and `DISPLAY_OVERLAY`. -/
def longPath (p : Post) (f : Fb) (phys : Word) (s : Dispc.State) (shown : List Bool) :
    Fb × Dispc.State × Outcome :=
  let set := setIoctl K d p f phys s
  let f := { f with pin := (osdArg f.pin f.mode (setArg f phys)).1 }
  if set.1 ≠ 0 then fallback p f set.2 (shown ++ [false])
  else
    let display := displayIoctl K d p (runOps K d p.beforeDisplay set.2)
    let shown := shown ++ [false, p.displayFault.isNone && decide (Scans display.2 phys)]
    if display.1 ≠ 0 then fallback p f display.2 shown
    else ({ waitVsync p.vsync f with flip := true }, display.2, ⟨0, [], shown⟩)

def flipIoctl (p : Post) (phys : Word) (s : Dispc.State) : Int × Dispc.State :=
  fbIoctl K d p.flipFault (.pageflip phys p.flipWake) s

/-- The `PAGEFLIP` has passed its checks: it writes the address and runs the controller. -/
def flipReaches (p : Post) (phys : Word) (s : Dispc.State) : Bool :=
  p.flipFault.isNone && decide (Dispc.flipRefusal phys s = 0)

/-- The flags after a `PAGEFLIP` that failed. -/
def afterFlip (f : Fb) (ret : Int) : Fb :=
  { f with noflip := f.noflip || decide (ret = -ENOTTY), flip := false }

/-- `a1000_overlay_post`. Waiting for the GPU before it changes nothing here. -/
def overlayPost (p : Post) (f : Fb) (s : Dispc.State) : Fb × Dispc.State × Outcome :=
  let phys := physOf p.ion f.frame p.buffer
  if f.off ∨ f.fdOpen = false then fallback p f s []
  else if phys = 0 then fallback p { f with off := true } s []
  else if f.flip ∧ f.noflip = false then
    let flip := flipIoctl K d p phys s
    let shown := [flipReaches p phys s && decide (Scans flip.2 phys)]
    if flip.1 = 0 then (f, flip.2, ⟨0, [], shown⟩)
    else longPath K d p (afterFlip f flip.1) phys flip.2 shown
  else longPath K d p f phys s []

/-! ### The system -/

structure System where
  fb : Fb
  dispc : Dispc.State

inductive PostEvent where
  | post (p : Post)
  | op (op : Op)

namespace Post

def step (s : System) : PostEvent → System
  | .post p => ⟨(overlayPost K d p s.fb s.dispc).1, (overlayPost K d p s.fb s.dispc).2.1⟩
  | .op op => { s with dispc := (Dispc.exec K d s.dispc op).2 }

end Post

/-- The buffer is shown by exactly one route: the driver shows it at the last ioctl and the original
`post` is not called, or that is called once with the buffer, its result is returned, and no ioctl
has made the driver show the buffer. -/
def OneRoute (p : Post) (o : Outcome) : Prop :=
  (o.ret = 0 ∧ o.real = [] ∧ o.shown.getLast? = some true) ∨
    (o.real = [p.buffer] ∧ o.ret = p.realResult ∧ true ∉ o.shown)

instance (p : Post) (o : Outcome) : Decidable (OneRoute p o) :=
  inferInstanceAs (Decidable (_ ∨ _))

def PostsOneRoute (s : System) (e : PostEvent) : Prop :=
  match e with
  | .post p => OneRoute p (overlayPost K d p s.fb s.dispc).2.2
  | .op _ => True

instance (s : System) (e : PostEvent) : Decidable (PostsOneRoute K d s e) :=
  match e with
  | .post p => inferInstanceAs (Decidable (OneRoute p (overlayPost K d p s.fb s.dispc).2.2))
  | .op _ => inferInstanceAs (Decidable True)

/-- The overlay is open and the OSD layer's address is the buffer's own. -/
def OpenAt (s : Dispc.State) (phys : Word) : Prop :=
  s.enable = true ∧ s.overlayState ≠ .off ∧ s.regs.osd.base = phys

instance (s : Dispc.State) (phys : Word) : Decidable (OpenAt s phys) :=
  inferInstanceAs (Decidable (_ ∧ _ ∧ _))

/-- The long path shows the buffer once: where it falls back there is an original `post`, and no
page flip of this call has shown the buffer; where it does not, `DISPLAY_OVERLAY` finds the overlay
open at the buffer's address. -/
def LongPathSafe (p : Post) (f : Fb) (phys : Word) (s : Dispc.State) (flipped : Bool) : Prop :=
  if (setIoctl K d p f phys s).1 ≠ 0 ∨ p.displayFault.isSome then
    f.realPost = true ∧ flipped = false
  else OpenAt (displayState K d p f phys s) phys

/-- The steps under which no post loses or doubles its frame. -/
def PostSafe (s : System) (e : PostEvent) : Prop :=
  match e with
  | .op _ => True
  | .post p =>
      let f := s.fb
      let phys := physOf p.ion f.frame p.buffer
      if f.off ∨ f.fdOpen = false ∨ phys = 0 then f.realPost = true
      else if f.flip ∧ f.noflip = false then
        let flip := flipIoctl K d p phys s.dispc
        flip.1 ≠ 0 →
          LongPathSafe K d p (afterFlip f flip.1) phys flip.2 (flipReaches p phys s.dispc)
      else LongPathSafe K d p f phys s.dispc false

instance (p : Post) (f : Fb) (phys : Word) (s : Dispc.State) (flipped : Bool) :
    Decidable (LongPathSafe K d p f phys s flipped) := by
  unfold LongPathSafe
  infer_instance

instance (s : System) (e : PostEvent) : Decidable (PostSafe K d s e) := by
  unfold PostSafe
  cases e <;> infer_instance

variable {K} {d}

/-! ### What the driver does for a post -/

theorem overlayStart_keeps (layerIndex : Word) (s : Dispc.State) :
    (Dispc.overlayStart K layerIndex s).2.enable = s.enable ∧
      (Dispc.overlayStart K layerIndex s).2.regs.osd.base = s.regs.osd.base := by
  unfold Dispc.overlayStart
  split
  · exact ⟨rfl, rfl⟩
  · split <;> exact ⟨rfl, rfl⟩

/-- `DISPLAY_OVERLAY` changes neither the enable flag nor the address; on a closed overlay it leaves
the layer dark. -/
theorem displayOverlay_keeps (display : Dispc.OverlayDisplay) (wake wakeAfter : Wake)
    (s : Dispc.State) :
    (Dispc.displayOverlay K d display wake wakeAfter s).2.enable = s.enable ∧
      (Dispc.displayOverlay K d display wake wakeAfter s).2.regs.osd.base = s.regs.osd.base ∧
      (s.enable = true → s.overlayState = .off →
        (Dispc.displayOverlay K d display wake wakeAfter s).2.regs.osd.ctrl =
          s.regs.osd.ctrl &&& ~~~Dispc.bit 0) := by
  have hsync := Dispc.frame_syncUnlessDpi d wake s
  have hrun := Dispc.frame_displayRun d display wakeAfter
  have hprepareEnable : (Dispc.displayPrepare d (Dispc.syncUnlessDpi d wake s)).enable = s.enable :=
    hsync.enable
  have hprepareBase : (Dispc.displayPrepare d (Dispc.syncUnlessDpi d wake s)).regs.osd.base =
      s.regs.osd.base := by
    show (Dispc.syncUnlessDpi d wake s).regs.osd.base = _
    rw [hsync.osd]
  have hprepareCtrl : (Dispc.displayPrepare d (Dispc.syncUnlessDpi d wake s)).regs.osd.ctrl =
      s.regs.osd.ctrl &&& ~~~Dispc.bit 0 :=
    congrArg (fun osd : Dispc.OsdLayer => osd.ctrl &&& ~~~Dispc.bit 0) hsync.osd
  obtain ⟨hstartEnable, hstartBase⟩ := overlayStart_keeps (K := K) display.layerIndex
    (Dispc.displayPrepare d (Dispc.syncUnlessDpi d wake s))
  unfold Dispc.displayOverlay
  split
  case isTrue hoff => exact ⟨rfl, rfl, fun h => absurd h (by simp [hoff])⟩
  dsimp only
  split
  · rename_i hon
    have hnotOff : s.overlayState ≠ .off := by
      intro hoff
      simp [Dispc.displayPrepare, hsync.overlayState, hoff] at hon
    split
    · exact ⟨hstartEnable.trans hprepareEnable, hstartBase.trans hprepareBase,
        fun _ hoff => absurd hoff hnotOff⟩
    · exact ⟨(hrun _).enable.trans (hstartEnable.trans hprepareEnable),
        (congrArg Dispc.OsdLayer.base (hrun _).osd).trans (hstartBase.trans hprepareBase),
        fun _ hoff => absurd hoff hnotOff⟩
  · exact ⟨(hrun _).enable.trans hprepareEnable,
      (congrArg Dispc.OsdLayer.base (hrun _).osd).trans hprepareBase,
      fun _ _ => (congrArg Dispc.OsdLayer.ctrl (hrun _).osd).trans hprepareCtrl⟩

/-- After the shim's `DISPLAY_OVERLAY` the controller scans the buffer exactly if it found the
overlay open at the buffer's address. -/
theorem displayOverlay_scans (hosd : K.layerOsd = SPRD_LAYER_OSD) {phys : Word} (hphys : phys ≠ 0)
    (wake wakeAfter : Wake) (s : Dispc.State) :
    Scans (Dispc.displayOverlay K d displayArg wake wakeAfter s).2 phys ↔ OpenAt s phys := by
  obtain ⟨henable, hbase, hdark⟩ := displayOverlay_keeps (K := K) (d := d) displayArg wake
    wakeAfter s
  have hbit : Dispc.bit 0 ≠ 0#32 := by decide
  constructor
  · intro hscans
    obtain ⟨hon, hat, hlayer⟩ := hscans
    rw [henable] at hon
    rw [hbase] at hat
    refine ⟨hon, fun hoff => ?_, hat⟩
    rw [hdark hon hoff, BitVec.and_assoc] at hlayer
    have hzero : ~~~Dispc.bit 0 &&& Dispc.bit 0 = 0#32 := by decide
    rw [hzero, BitVec.and_zero] at hlayer
    exact hbit hlayer.symm
  · intro hopen
    obtain ⟨hon, hstate, hat⟩ := hopen
    have hnonzero : s.regs.osd.base ≠ 0 := by
      rw [hat]
      exact hphys
    have hregs := (Dispc.displayOverlay_frame (K := K) (d := d) displayArg wake wakeAfter hon
      (fun _ => hnonzero)).2 hstate
    have hlayer : displayArg.layerIndex &&& K.layerOsd ≠ 0 := by
      rw [hosd]
      decide
    refine ⟨henable.trans hon, hbase.trans hat, ?_⟩
    rw [hregs]
    dsimp only
    rw [if_pos hlayer]
    exact Dispc.or_and_mask _ _

theorem overlayOsdConfigure_base {info : OverlayInfo} {s : Dispc.State}
    (hret : (Dispc.overlayOsdConfigure K info s).1 = 0) :
    (Dispc.overlayOsdConfigure K info s).2.regs.osd.base = info.buffer := by
  have hfail : (-1 : Int) ≠ 0 := by decide
  unfold Dispc.overlayOsdConfigure at hret ⊢
  split at hret
  · exact absurd hret hfail
  rename_i hon
  rw [if_neg hon]
  split at hret
  · exact absurd hret hfail
  rename_i htype
  rw [if_neg htype]
  split at hret
  · exact absurd hret hfail
  rename_i hendian
  rw [if_neg hendian]

/-- A `SET_OVERLAY` of the OSD layer that succeeds leaves the overlay open at its address. -/
theorem enableOverlay_open {info : OverlayInfo} (hlayer : info.layerIndex = K.layerOsd)
    {wake : Wake} {s : Dispc.State} (hret : (Dispc.enableOverlay K d info wake s).1 = 0) :
    OpenAt (Dispc.enableOverlay K d info wake s).2 info.buffer := by
  have hfail : (-1 : Int) ≠ 0 := by decide
  have hframe := Dispc.frame_dispcSync d wake s
  obtain ⟨hon, henable⟩ := Dispc.openAndConfigure_frame (K := K) (d := d) info
    (Dispc.dispcSync d wake s).2
  have hbase (s : Dispc.State) (h : (Dispc.openAndConfigure K d info s).1 = 0) :
      (Dispc.openAndConfigure K d info s).2.regs.osd.base = info.buffer := by
    unfold Dispc.openAndConfigure at h ⊢
    dsimp only at h ⊢
    rw [if_neg (hlayer ▸ K.layers_ne.symm), if_pos hlayer] at h ⊢
    exact overlayOsdConfigure_base h
  unfold Dispc.enableOverlay at hret ⊢
  split at hret
  · exact absurd hret hfail
  rename_i hdisabled
  rw [if_neg hdisabled]
  dsimp only at hret ⊢
  split at hret
  · exact absurd hret hfail
  rename_i hsync
  rw [if_neg hsync]
  have hconfigured : (Dispc.openAndConfigure K d info (Dispc.dispcSync d wake s).2).1 = 0 := by
    by_contra hno
    rw [if_pos hno] at hret
    exact absurd hret hfail
  refine ⟨?_, ?_, hbase _ hconfigured⟩
  · show (Dispc.openAndConfigure K d info (Dispc.dispcSync d wake s).2).2.enable = true
    rw [henable, hframe.enable]
    simpa using hdisabled
  · show (Dispc.openAndConfigure K d info (Dispc.dispcSync d wake s).2).2.overlayState ≠ .off
    rw [hon]
    decide

/-- The long path's `SET_OVERLAY` opens the overlay at the address the interposer hands on: a pin
has already changed it, and what comes before `DISPLAY_OVERLAY` may. -/
theorem setIoctl_open (hosd : K.layerOsd = SPRD_LAYER_OSD) {p : Post} {f : Fb} {phys : Word}
    {s : Dispc.State} (hret : (setIoctl K d p f phys s).1 = 0) :
    OpenAt (setIoctl K d p f phys s).2 (osdArg f.pin f.mode (setArg f phys)).2.buffer := by
  have hlayer : (osdArg f.pin f.mode (setArg f phys)).2.layerIndex = K.layerOsd := by
    rw [hosd]
    unfold osdArg
    split
    · cases f.mode <;> rfl
    · rfl
  unfold setIoctl fbIoctl at hret ⊢
  cases hfault : p.setFault with
  | none =>
      rw [hfault] at hret
      exact enableOverlay_open hlayer hret
  | some e =>
      have hpositive := e.2
      rw [hfault] at hret
      dsimp only at hret
      omega

/-- A page flip that passes its checks shows the buffer, whatever it returns. -/
theorem pageflip_scans {phys : Word} (wake : Wake) {s : Dispc.State}
    (hgo : Dispc.flipRefusal phys s = 0) : Scans (Dispc.pageflip d phys wake s).2 phys := by
  obtain ⟨-, henable, hosd⟩ := Dispc.pageflip_frame (d := d) wake hgo
  refine ⟨henable.trans (Dispc.flipRefusal_eq_zero.1 hgo).2.1, ?_, ?_⟩
  · rw [hosd]
    rfl
  · rw [hosd]
    exact Dispc.or_and_mask _ _

theorem flipIoctl_shown (p : Post) (phys : Word) (s : Dispc.State) :
    (flipReaches p phys s && decide (Scans (flipIoctl K d p phys s).2 phys)) =
      flipReaches p phys s := by
  unfold flipReaches flipIoctl fbIoctl
  cases p.flipFault with
  | some e => rfl
  | none =>
      by_cases hgo : Dispc.flipRefusal phys s = 0
      · have hscans : Scans (Dispc.exec K d s (.pageflip phys p.flipWake)).2 phys :=
          pageflip_scans p.flipWake hgo
        simp [hgo, hscans]
      · simp [hgo]

/-- A page flip that returns `0` has passed its checks. -/
theorem flipReaches_of_zero {p : Post} {phys : Word} {s : Dispc.State}
    (hret : (flipIoctl K d p phys s).1 = 0) : flipReaches p phys s = true := by
  unfold flipIoctl fbIoctl at hret
  unfold flipReaches
  cases hfault : p.flipFault with
  | some e =>
      rw [hfault] at hret
      have hpositive := e.2
      dsimp only at hret
      omega
  | none =>
      rw [hfault] at hret
      have hgo : Dispc.flipRefusal phys s = 0 := by
        by_contra hno
        have hrefused := Dispc.pageflip_refused (d := d) p.flipWake hno
        change (Dispc.pageflip d phys p.flipWake s).1 = 0 at hret
        rw [hrefused] at hret
        exact hno hret
      simp [hgo]

/-! ### One post -/

theorem oneRoute_fallback {p : Post} {f : Fb} {s : Dispc.State} {shown : List Bool}
    (hlast : shown.getLast? ≠ some true) :
    OneRoute p (fallback p f s shown).2.2 ↔ f.realPost = true ∧ true ∉ shown := by
  unfold fallback OneRoute
  cases f.realPost with
  | true => simp
  | false => simp [hlast]

theorem oneRoute_longPath (hosd : K.layerOsd = SPRD_LAYER_OSD) {p : Post} {f : Fb} {phys : Word}
    (hphys : phys ≠ 0) (s : Dispc.State) (flipped : List Bool) :
    OneRoute p (longPath K d p f phys s flipped).2.2 ↔
      LongPathSafe K d p f phys s (decide (true ∈ flipped)) := by
  have hdisplay : (displayIoctl K d p (displayState K d p f phys s)).1 ≠ 0 ↔
      p.displayFault.isSome = true := by
    unfold displayIoctl fbIoctl
    cases p.displayFault with
    | some e =>
        have hpositive := e.2
        simp only [Option.isSome_some, iff_true]
        omega
    | none =>
        simp only [Option.isSome_none, Bool.false_eq_true, iff_false, not_not]
        exact Dispc.displayOverlay_fst _ _ _ _
  unfold longPath LongPathSafe
  dsimp only
  by_cases hset : (setIoctl K d p f phys s).1 ≠ 0
  · rw [if_pos hset, if_pos (.inl hset), oneRoute_fallback (by simp)]
    simp
  · rw [if_neg hset]
    change OneRoute p (if (displayIoctl K d p (displayState K d p f phys s)).1 ≠ 0 then _
      else _ : Fb × Dispc.State × Outcome).2.2 ↔ _
    cases hfault : p.displayFault with
    | some e =>
        have hsome : p.displayFault.isSome = true := by rw [hfault]; rfl
        rw [if_pos (hdisplay.2 hsome), if_pos (.inr (by rfl)), oneRoute_fallback (by simp)]
        simp
    | none =>
        have hnone : ¬ p.displayFault.isSome = true := by simp [hfault]
        have hstate : (displayIoctl K d p (displayState K d p f phys s)).2 =
            (Dispc.displayOverlay K d displayArg p.displayWake p.displayWake
              (displayState K d p f phys s)).2 := by
          unfold displayIoctl fbIoctl
          rw [hfault]
          rfl
        have hscans := displayOverlay_scans (d := d) hosd hphys p.displayWake p.displayWake
          (displayState K d p f phys s)
        rw [← hstate] at hscans
        rw [if_neg (fun h => hnone (hdisplay.1 h)), if_neg (by simpa using hset), ← hscans]
        show (0 = (0 : Int) ∧ ([] : List Handle) = [] ∧ (flipped ++ [false, true &&
          decide (Scans (displayIoctl K d p (displayState K d p f phys s)).2 phys)]).getLast? =
            some true ∨ ([] : List Handle) = [p.buffer] ∧ _) ↔ _
        simp [List.getLast?_append]

/-- A post takes exactly one route if and only if it meets the condition. -/
theorem postsOneRoute_iff (hosd : K.layerOsd = SPRD_LAYER_OSD) (s : System) (e : PostEvent) :
    PostsOneRoute K d s e ↔ PostSafe K d s e := by
  cases e with
  | op op => exact Iff.rfl
  | post p =>
      unfold PostsOneRoute PostSafe overlayPost
      dsimp only
      by_cases hclosed : s.fb.off = true ∨ s.fb.fdOpen = false
      · rw [if_pos hclosed, if_pos (hclosed.imp id .inl), oneRoute_fallback (by simp)]
        simp
      · rw [if_neg hclosed]
        by_cases hphys : physOf p.ion s.fb.frame p.buffer = 0
        · rw [if_pos hphys, if_pos (.inr (.inr hphys)), oneRoute_fallback (by simp)]
          simp
        · have hdirect : ¬ (s.fb.off = true ∨ s.fb.fdOpen = false ∨
              physOf p.ion s.fb.frame p.buffer = 0) := by
            intro h
            obtain h | h | h := h
            · exact hclosed (.inl h)
            · exact hclosed (.inr h)
            · exact hphys h
          rw [if_neg hphys, if_neg hdirect]
          by_cases hflip : s.fb.flip = true ∧ s.fb.noflip = false
          · rw [if_pos hflip, if_pos hflip, flipIoctl_shown]
            by_cases hret : (flipIoctl K d p (physOf p.ion s.fb.frame p.buffer) s.dispc).1 = 0
            · rw [if_pos hret, flipReaches_of_zero hret]
              exact ⟨fun _ h => absurd hret h, fun _ => .inl ⟨rfl, rfl, rfl⟩⟩
            · rw [if_neg hret, oneRoute_longPath hosd hphys]
              simp [hret]
          · rw [if_neg hflip, if_neg hflip, oneRoute_longPath hosd hphys]
            simp

/-! ### Runs -/

/-- In every run every post takes exactly one route, and shows its buffer on it, if and only if
every post meets the condition. -/
theorem posts_one_route_iff (hosd : K.layerOsd = SPRD_LAYER_OSD) (s : System)
    (events : List PostEvent) :
    Run.EachStep (Post.step K d) (PostsOneRoute K d) s events ↔
      Run.EachStep (Post.step K d) (PostSafe K d) s events :=
  ⟨fun h => h.mono fun s e => (postsOneRoute_iff hosd s e).1,
    fun h => h.mono fun s e => (postsOneRoute_iff hosd s e).2⟩

/-! ### One device -/

def firstBuffer : Handle := ⟨[4, 5]⟩

def secondBuffer : Handle := ⟨[6]⟩

/-- ION knows descriptor 5 and descriptor 6. -/
def ionAnswers : Ion := fun fd =>
  if fd = 5 then some (0x9ffcc000, 1536000)
  else if fd = 6 then some (0xa0143000, 1536000)
  else none

def undisturbedPost (buffer : Handle) : Post :=
  ⟨buffer, some ionAnswers, none, .done, [], none, .done, [], none, .done, .prompt, 0⟩

def patchedFb (nopin : Bool) : Fb where
  off := false
  fdOpen := true
  flip := false
  noflip := false
  sync := true
  slowInRow := 0
  w := 480
  h := 800
  frame := 1536000
  realPost := true
  pin := ⟨nopin, 0⟩
  mode := .gpu

/-- Long path, page flip, a dark panel, and the long path again. -/
def wakingRun : List PostEvent :=
  [.post (undisturbedPost firstBuffer), .post (undisturbedPost secondBuffer), .op (.suspend .done),
    .post (undisturbedPost firstBuffer), .op (.resume true .done),
    .post (undisturbedPost secondBuffer)]

theorem posts_one_route_wakingRun :
    Run.EachStep (Post.step Dispc.headerConst Dispc.dpiPanel)
      (PostsOneRoute Dispc.headerConst Dispc.dpiPanel) ⟨patchedFb true, Dispc.runningPanel⟩
      wakingRun :=
  (posts_one_route_iff rfl ⟨patchedFb true, Dispc.runningPanel⟩ wakingRun).2 (by decide)

/-- The panel is suspended between `SET_OVERLAY` and `DISPLAY_OVERLAY`, which answers `0`. -/
def suspendedRun : List PostEvent :=
  [.post { undisturbedPost firstBuffer with beforeDisplay := [.suspend .done] }]

/-- A post that returns `0` shows nothing on a suspended panel, and after a wake-up, where the long
path's address is pinned, the first buffer for the second. -/
theorem post_loses_frame :
    ¬ Run.EachStep (Post.step Dispc.headerConst Dispc.dpiPanel)
        (PostsOneRoute Dispc.headerConst Dispc.dpiPanel) ⟨patchedFb true, Dispc.runningPanel⟩
        suspendedRun ∧
      ¬ Run.EachStep (Post.step Dispc.headerConst Dispc.dpiPanel)
        (PostsOneRoute Dispc.headerConst Dispc.dpiPanel) ⟨patchedFb false, Dispc.runningPanel⟩
        wakingRun := by
  decide

end LineageA1000.Shim
