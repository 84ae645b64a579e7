import LineageA1000.Lib.Errno
import Mathlib.Data.BitVec

/-!
# The display controller and its driver's context

DISPC scans the OSD layer, and under it the image layer, out to the panel. The driver programs the
layer registers, asks the controller to take them over (`dispc_run`) and learns from an interrupt
that it has. What the hardware holds after a soft reset and the constants of the user-visible header
are not part of the sources; they are parameters.
-/

namespace LineageA1000.Dispc

abbrev Word := BitVec 32

/-- `BIT(n)`. -/
def bit (n : Nat) : Word := 1#32 <<< n

/-- The interrupt sources the driver knows. -/
structure IntBits where
  updateDone : Bool
  hwVsync : Bool
  done : Bool
  te : Bool
  err : Bool
  deriving DecidableEq, Repr

def IntBits.none : IntBits := ⟨false, false, false, false, false⟩

def IntBits.inter (a b : IntBits) : IntBits :=
  ⟨a.updateDone && b.updateDone, a.hwVsync && b.hwVsync, a.done && b.done, a.te && b.te,
    a.err && b.err⟩

structure OsdLayer where
  ctrl : Word
  base : Word
  alpha : Word
  size : Word
  pitch : Word
  disp : Word
  ck : Word
  deriving DecidableEq, Repr

/-- The image layer. Its colour conversion registers are left out: nothing reads them. -/
structure ImgLayer where
  ctrl : Word
  yBase : Word
  uvBase : Word
  size : Word
  pitch : Word
  disp : Word
  deriving DecidableEq, Repr

structure Regs where
  ctrl : Word
  dpiCtrl : Word
  sizeXy : Word
  bgColor : Word
  bufThres : Word
  intEn : IntBits
  intRaw : IntBits
  osd : OsdLayer
  img : ImgLayer
  deriving DecidableEq, Repr

inductive PanelIf where
  | dbi
  | dpi
  | edpi
  deriving DecidableEq, Repr

/-- What of the device and its panel no operation changes. -/
structure Device where
  panelIf : PanelIf
  xres : Word
  yres : Word
  bitsPerPixel : Word
  smemStart : Word
  lineLength : Word
  panelWidth : Word
  panelHeight : Word
  isCleanLcd : Bool
  /-- The registers after a soft reset. -/
  resetRegs : Regs

/-- The driver's overlay state: closed, configured, started. -/
inductive OverlayState where
  | off
  | on
  | started
  deriving DecidableEq, Repr

/-- The module parameters, writable through sysfs; a negative one is not in force. -/
structure OsdParams where
  endianOv : Int
  rbOv : Int
  fmtOv : Int
  extra16 : Int
  deriving DecidableEq, Repr

structure State where
  regs : Regs
  /-- The address DISPC has taken over. -/
  shdwOsdBase : Word
  enable : Bool
  isFirstFrame : Bool
  vsyncWaiter : Nat
  vsyncDone : Bool
  waitforVsyncDone : Bool
  overlayState : OverlayState
  frameCount : Nat
  params : OsdParams
  deriving DecidableEq, Repr

variable (d : Device)

/-! ### The interrupt handler -/

/-- `DISPC_INT_STATUS`: what is raised and enabled. -/
def intStatus (s : State) : IntBits := s.regs.intRaw.inter s.regs.intEn

/-- The status bit the driver waits for: the register update on DPI, the end of the transfer
elsewhere. -/
def isrSeesDone (status : IntBits) : Bool :=
  match d.panelIf with
  | .dpi => status.updateDone
  | _ => status.done

def isrSeesVsync (status : IntBits) : Bool :=
  match d.panelIf with
  | .dpi => status.hwVsync
  | .edpi => status.te
  | .dbi => false

/-- What `dispc_isr` does up to the wake-up: it acknowledges what it has read. -/
def isrAck (status : IntBits) (s : State) : State :=
  let done := isrSeesDone d status
  let vsync := isrSeesVsync d status
  { s with
    regs.intRaw :=
      { updateDone := s.regs.intRaw.updateDone && !(done && d.panelIf == .dpi)
        hwVsync := s.regs.intRaw.hwVsync && !(vsync && d.panelIf == .dpi)
        done := s.regs.intRaw.done && !(done && d.panelIf != .dpi)
        te := s.regs.intRaw.te && !(vsync && d.panelIf == .edpi)
        err := s.regs.intRaw.err && !status.err }
    regs.intEn.err := s.regs.intEn.err && !status.err
    isFirstFrame := s.isFirstFrame && !(done && d.panelIf != .dpi)
    waitforVsyncDone := s.waitforVsyncDone || vsync }

/-- The end of `dispc_isr` when it has seen the awaited bit. -/
def isrWake (s : State) : State :=
  { s with vsyncDone := true, vsyncWaiter := 0 }

def dispcIsr (s : State) : State :=
  let status := intStatus s
  if isrSeesDone d status then isrWake (isrAck d status s) else isrAck d status s

/-! ### Waiting and running -/

/-- How a sleep in `wait_event_interruptible_timeout` ends. -/
inductive Wake where
  | done
  | timeout
  | signal
  deriving DecidableEq, Repr

abbrev ERESTARTSYS : Int := 512

/-- The awaited interrupt arrives during a sleep: DISPC has taken the registers over. -/
def updateDone (s : State) : State :=
  isrWake { s with
    shdwOsdBase := s.regs.osd.base
    isFirstFrame := s.isFirstFrame && d.panelIf == .dpi }

/-- `wait_event_interruptible_timeout(vsync_queue, vsync_done, 100 ms)`. -/
def waitVsyncDone (wake : Wake) (s : State) : Int × State :=
  if s.vsyncDone then (1, s)
  else match wake with
    | .done => (1, updateDone d s)
    | .timeout => (0, s)
    | .signal => (-ERESTARTSYS, s)

def dispcSync (wake : Wake) (s : State) : Int × State :=
  if s.enable = false then (-1, s)
  else
    let (ret, s) := waitVsyncDone d wake s
    if ret = 0 then (-1, { s with vsyncDone := true }) else (0, s)

/-- The first half of `dispc_run`: the done flag is lowered, on DPI not for the first frame. -/
def dispcRunClear (s : State) : State :=
  match d.panelIf with
  | .dpi =>
      if s.isFirstFrame then s
      else { s with vsyncDone := false, vsyncWaiter := s.vsyncWaiter + 1 }
  | _ => { s with vsyncDone := false }

/-- The second half of `dispc_run`: the register update (DPI) or the transfer is requested. Later
frames of a DPI panel wait for nothing here: the overlay wait is for other interfaces only. -/
def dispcRunArm (s : State) : State :=
  match d.panelIf with
  | .dpi =>
      if s.isFirstFrame then
        { s with
          regs.dpiCtrl := (s.regs.dpiCtrl ||| bit 5) &&& ~~~bit 4
          regs.ctrl := s.regs.ctrl ||| bit 4
          regs.intEn.err := true
          isFirstFrame := false }
      else
        { s with
          regs.dpiCtrl := s.regs.dpiCtrl ||| bit 5
          regs.intEn.err := true }
  | _ => { s with regs.ctrl := s.regs.ctrl ||| bit 4 }

def dispcRun (s : State) : State :=
  if s.enable = false then s else dispcRunArm d (dispcRunClear d s)

def dispcStop (s : State) : State :=
  match d.panelIf with
  | .dpi =>
      { s with
        regs.dpiCtrl := s.regs.dpiCtrl ||| bit 4
        regs.ctrl := s.regs.ctrl &&& ~~~bit 4
        isFirstFrame := true }
  | _ => s

/-! ### The layers -/

/-- The control word of the frame buffer on the OSD layer. -/
def fbOsdCtrl : Word :=
  bit 0 ||| bit 2 |||
    (if d.bitsPerPixel = 32 then 3#32 <<< 4 ||| bit 15 else 5#32 <<< 4 ||| 2#32 <<< 8)

def dispcLayerInit (s : State) : State :=
  { s with
    regs.img.ctrl := 0
    regs.osd :=
      { ctrl := fbOsdCtrl d
        base := s.regs.osd.base
        alpha := 0xff
        size := (d.xres &&& 0xfff) ||| (d.yres &&& 0xfff) <<< 16
        disp := 0
        pitch := d.xres &&& 0xfff
        ck := 0 } }

def dispcLayerUpdate (s : State) : State :=
  { s with regs.osd.ctrl := fbOsdCtrl d }

def dispcReset (s : State) : State :=
  { s with regs := d.resetRegs }

def dispcModuleEnable (s : State) : State :=
  { s with
    regs.ctrl := bit 0
    regs.intEn := .none
    regs.intRaw := .none }

/-- `sprdfb_dispc_init`: general set-up, the layers, the interrupts; the device is enabled. -/
def dispcInit (s : State) : State :=
  let s : State := { s with
    regs.bgColor := 0
    regs.ctrl := (s.regs.ctrl ||| bit 6) &&& ~~~(3#32 <<< 16) ||| bit 7
    regs.bufThres := 0x960 ||| 0x960#32 <<< 16 }
  let s := if s.isFirstFrame then dispcLayerInit d s else dispcLayerUpdate d s
  match d.panelIf with
  | .dpi =>
      { s with
        regs.dpiCtrl :=
          if s.isFirstFrame then s.regs.dpiCtrl ||| bit 4 else s.regs.dpiCtrl &&& ~~~bit 4
        regs.intEn := ⟨true, true, false, false, true⟩
        enable := true }
  | _ => { s with regs.intEn := ⟨false, false, true, false, true⟩, enable := true }

/-- `sprdfb_dispc_early_init` of a device that is already initialised. -/
def dispcEarlyInit (s : State) : State :=
  { dispcModuleEnable (dispcReset d s) with isFirstFrame := true }

end LineageA1000.Dispc
