import LineageA1000.Dispc.Controller

/-!
# The overlay operations of the driver

Each operation runs under `refresh_lock` and is given here as a whole: the result it returns and the
state it leaves. A `Wake` argument says how the wait inside it ends, should it have to sleep.
-/

namespace LineageA1000.Dispc

/-- The constants of the user-visible header; the two layers have different numbers. -/
structure FbConst where
  layerImg : Word
  layerOsd : Word
  layers_ne : layerImg ≠ layerOsd
  typeYuv400 : Int
  typeRgb888 : Int
  typeLimit : Int
  endianLimit : Int

structure Rect where
  x : BitVec 16
  y : BitVec 16
  w : BitVec 16
  h : BitVec 16
  deriving DecidableEq, Repr

/-- `struct overlay_info`, the argument of `SET_OVERLAY`. -/
structure OverlayInfo where
  layerIndex : Word
  dataType : Int
  yEndian : Int
  uvEndian : Int
  rbSwitch : Bool
  rect : Rect
  buffer : Word
  deriving DecidableEq, Repr

abbrev OVERLAY_DISPLAY_SYNC : Word := 1

/-- `struct overlay_display`, the argument of `DISPLAY_OVERLAY`. The rectangle is not read: the
panel's size is programmed. -/
structure OverlayDisplay where
  layerIndex : Word
  displayMode : Word
  deriving DecidableEq, Repr

variable (K : FbConst) (d : Device)

/-! ### Opening, configuring, starting and closing the overlay -/

def overlayOpen (s : State) : State := { s with overlayState := .on }

def overlayStart (layerIndex : Word) (s : State) : Int × State :=
  if s.overlayState ≠ .on then (-1, s)
  else if s.regs.img.yBase = 0 ∧ s.regs.osd.base = 0 then (-1, s)
  else
    let imgCtrl :=
      if layerIndex &&& K.layerImg ≠ 0 ∧ s.regs.img.yBase ≠ 0 then s.regs.img.ctrl ||| bit 0
      else s.regs.img.ctrl
    let osdCtrl := s.regs.osd.ctrl ||| bit 2
    let osdCtrl :=
      if layerIndex &&& K.layerOsd ≠ 0 ∧ s.regs.osd.base ≠ 0 then osdCtrl ||| bit 0 else osdCtrl
    (0, { s with
      regs.bgColor := 0
      regs.img.ctrl := imgCtrl
      regs.osd.ctrl := osdCtrl
      regs.osd.alpha := 0xff
      overlayState := .started })

/-- `(h << 16) | w`, `(y << 16) | x`. -/
def packXy (hi lo : BitVec 16) : Word := hi.setWidth 32 <<< 16 ||| lo.setWidth 32

def overlayImgConfigure (info : OverlayInfo) (s : State) : Int × State :=
  if s.overlayState ≠ .on then (-1, s)
  else if info.dataType ≥ K.typeLimit then (-1, s)
  else if info.yEndian ≥ K.endianLimit ∨ info.uvEndian ≥ K.endianLimit then (-1, s)
  else
    let ctrl := BitVec.ofInt 32 info.yEndian <<< 8 ||| BitVec.ofInt 32 info.uvEndian <<< 10 |||
      BitVec.ofInt 32 info.dataType <<< 4
    (0, { s with
      regs.img :=
        { ctrl := if info.rbSwitch then ctrl ||| bit 15 else ctrl
          yBase := info.buffer
          uvBase :=
            if info.dataType < K.typeRgb888 then
              info.buffer + info.rect.w.setWidth 32 * info.rect.h.setWidth 32
            else s.regs.img.uvBase
          size := packXy info.rect.h info.rect.w
          pitch := info.rect.w.setWidth 32
          disp := packXy info.rect.y info.rect.x } })

/-- The control word `overlay_osd_configure` writes. A 32-bit RGB buffer is never switched; the
module parameters override what the caller says. -/
def osdCtrlWord (p : OsdParams) (info : OverlayInfo) : Word :=
  let e := if p.endianOv ≥ 0 then p.endianOv else info.yEndian
  let t := if p.fmtOv ≥ 0 then p.fmtOv else info.dataType
  let rb := if p.rbOv ≥ 0 then decide (p.rbOv ≠ 0)
    else if K.typeRgb888 = info.dataType then false else info.rbSwitch
  BitVec.ofInt 32 e <<< 8 ||| BitVec.ofInt 32 t <<< 4 ||| bit 2 |||
    (if p.extra16 ≥ 0 then BitVec.ofInt 32 p.extra16 <<< 16 else 0) |||
    (if rb then bit 15 else 0)

def overlayOsdConfigure (info : OverlayInfo) (s : State) : Int × State :=
  if s.overlayState ≠ .on then (-1, s)
  else if info.dataType ≥ K.typeLimit ∨ info.dataType ≤ K.typeYuv400 then (-1, s)
  else if info.yEndian ≥ K.endianLimit then (-1, s)
  else
    (0, { s with
      regs.osd.ctrl := osdCtrlWord K s.params info
      regs.osd.base := info.buffer
      regs.osd.size := packXy info.rect.h info.rect.w
      regs.osd.pitch := info.rect.w.setWidth 32
      regs.osd.disp := packXy info.rect.y info.rect.x })

def overlayClose (s : State) : State :=
  if s.overlayState = .off then s
  else
    { dispcLayerInit d { s with
        regs.bgColor := 0
        regs.img.yBase := 0
        regs.osd.base := 0 } with overlayState := .off }

/-! ### The ioctl operations -/

/-- The configuration half of `enable_overlay`: a started overlay is closed first, the overlay is
opened, one layer is configured. An unknown layer is only logged. -/
def openAndConfigure (info : OverlayInfo) (s : State) : Int × State :=
  let s := if s.overlayState = .started then overlayClose d s else s
  let s := overlayOpen s
  if info.layerIndex = K.layerImg then overlayImgConfigure K info s
  else if info.layerIndex = K.layerOsd then overlayOsdConfigure K info s
  else (0, s)

/-- `sprdfb_dispc_enable_overlay`, `enable = 1`. -/
def enableOverlay (info : OverlayInfo) (wake : Wake) (s : State) : Int × State :=
  if s.enable = false then (-1, s)
  else
    let (ret, s) := dispcSync d wake s
    if ret ≠ 0 then (-1, s)
    else
      let (ret, s) := openAndConfigure K d info s
      (if ret ≠ 0 then -1 else 0, s)

/-- `sprdfb_dispc_enable_overlay`, `enable = 0`: closing is commented out. -/
def disableOverlay (s : State) : Int × State := (-1, s)

/-- What `sprdfb_dispc_pageflip` writes before it runs the controller. -/
def flipWrites (phys : Word) (s : State) : State :=
  let ctrl :=
    if s.params.rbOv ≥ 0 then
      if s.params.rbOv ≠ 0 then s.regs.osd.ctrl ||| bit 15 else s.regs.osd.ctrl &&& ~~~bit 15
    else s.regs.osd.ctrl
  { s with
    regs.osd.ctrl := ctrl ||| bit 0
    regs.osd.alpha := 0xff
    regs.osd.base := phys
    frameCount := s.frameCount + 1 }

/-- The checks of `sprdfb_dispc_pageflip`; `0` lets the flip go on. -/
def flipRefusal (phys : Word) (s : State) : Int :=
  if phys = 0 then -EINVAL
  else if s.enable = false then -EPERM
  else if s.overlayState ≠ .started ∧ s.overlayState ≠ .on then -EAGAIN
  else 0

/-- The end of `sprdfb_dispc_pageflip`. -/
def flipWait (wake : Wake) (s : State) : Int × State :=
  if s.isFirstFrame then (0, s)
  else
    let (ret, s) := dispcSync d wake s
    (if ret ≠ 0 then -ETIMEDOUT else 0, s)

def pageflip (phys : Word) (wake : Wake) (s : State) : Int × State :=
  if flipRefusal phys s ≠ 0 then (flipRefusal phys s, s)
  else flipWait d wake (dispcRun d (flipWrites phys s))

/-- A wait whose result the caller ignores, off the DPI interface. -/
def syncUnlessDpi (wake : Wake) (s : State) : State :=
  match d.panelIf with
  | .dpi => s
  | _ => (dispcSync d wake { s with vsyncWaiter := s.vsyncWaiter + 1 }).2

def panelSize : Word := (d.panelWidth &&& 0xffff) ||| d.panelHeight <<< 16

/-- The state `display_overlay` starts the overlay from: the OSD layer is dark and a started overlay
counts as configured again. -/
def displayPrepare (s : State) : State :=
  { s with
    regs.sizeXy := panelSize d
    regs.osd.ctrl := s.regs.osd.ctrl &&& ~~~bit 0
    overlayState := if s.overlayState = .started then .on else s.overlayState }

/-- `frame_count += 1; dispc_run()`. -/
def runFrame (s : State) : State := dispcRun d { s with frameCount := s.frameCount + 1 }

/-- The end of `display_overlay`. -/
def displayRun (display : OverlayDisplay) (wakeAfter : Wake) (s : State) : State :=
  if display.displayMode = OVERLAY_DISPLAY_SYNC then syncUnlessDpi d wakeAfter (runFrame d s)
  else runFrame d s

/-- `sprdfb_dispc_display_overlay`. Every way out returns `0`. -/
def displayOverlay (display : OverlayDisplay) (wake wakeAfter : Wake) (s : State) : Int × State :=
  if s.enable = false then (0, s)
  else
    let s := displayPrepare d (syncUnlessDpi d wake s)
    if s.overlayState = .on then
      let (ret, s) := overlayStart K display.layerIndex s
      if ret ≠ 0 then (0, s) else (0, displayRun d display wakeAfter s)
    else (0, displayRun d display wakeAfter s)

/-! ### Panning, power and frequency -/

/-- The wait at the start of `sprdfb_dispc_refresh`: on DPI only for an address that has not been
taken over yet. -/
def refreshSync (wake : Wake) (s : State) : State :=
  match d.panelIf with
  | .dpi =>
      if s.regs.osd.base ≠ s.shdwOsdBase ∧ s.shdwOsdBase ≠ 0 then
        (dispcSync d wake { s with vsyncWaiter := s.vsyncWaiter + 1 }).2
      else s
  | _ => syncUnlessDpi d wake s

/-- What `sprdfb_dispc_refresh` writes: the frame buffer goes onto the OSD layer. -/
def refreshWrites (yoffset : Word) (s : State) : State :=
  let s : State := { s with regs.osd.alpha := 0xff }
  let s := if s.overlayState = .started then overlayClose d s else s
  { s with
    regs.osd.base := d.smemStart + d.lineLength * yoffset
    regs.osd.disp := 0
    regs.osd.size := (d.xres &&& 0xffff) ||| d.yres <<< 16
    regs.osd.pitch := d.xres
    regs.sizeXy := panelSize d
    regs.osd.ctrl := s.regs.osd.ctrl ||| bit 0 }

/-- `sprdfb_dispc_refresh`, the operation behind a pan. -/
def refresh (yoffset : Word) (wake : Wake) (s : State) : Int × State :=
  if s.enable = false then (0, s)
  else
    let s := refreshWrites d yoffset (refreshSync d wake s)
    let s := if s.overlayState = .on then (overlayStart K K.layerImg s).2 else s
    (0, runFrame d s)

def suspend (wake : Wake) (s : State) : Int × State :=
  if s.enable = false then (0, s)
  else
    let s := dispcStop d { syncUnlessDpi d wake s with enable := false }
    (0, { s with regs.intEn := .none })

/-- `sprdfb_dispc_clean_lcd`: the first frame is the frame buffer, fully transparent. -/
def cleanLcd (wake : Wake) (s : State) : State :=
  if s.isFirstFrame then
    let s := dispcRun d { s with
      regs.sizeXy := panelSize d
      regs.bgColor := 0
      regs.osd.base := d.smemStart
      regs.osd.alpha := 0 }
    (dispcSync d wake s).2
  else s

/-- `sprdfb_dispc_resume`. Its early initialisation gives up where the clocks cannot be set. -/
def resume (clkOk : Bool) (wake : Wake) (s : State) : Int × State :=
  if s.enable = false then
    let s : State := { s with vsyncDone := true }
    let s := dispcInit d (if clkOk then dispcEarlyInit d s else s)
    let s : State := { s with enable := true }
    (0, if d.isCleanLcd then cleanLcd d wake s else s)
  else (0, s)

/-- `sprdfb_dispc_chg_clk` as far as the controller is concerned: it is stopped and, unless an
overlay is only configured, run again. -/
def chgClk (s : State) : State :=
  let s := dispcStop d s
  if s.overlayState ≠ .on then dispcRun d s else s

/-! ### The operations together -/

/-- A frame buffer operation with the endings of its waits, or what happens between operations: an
update-done interrupt, a write to the module parameters. -/
inductive Op where
  | setOverlay (info : OverlayInfo) (wake : Wake)
  | disableOverlay
  | displayOverlay (display : OverlayDisplay) (wake wakeAfter : Wake)
  | pageflip (phys : Word) (wake : Wake)
  | refresh (yoffset : Word) (wake : Wake)
  | suspend (wake : Wake)
  | resume (clkOk : Bool) (wake : Wake)
  | chgClk
  | updateDone
  | setParams (params : OsdParams)

def exec (s : State) : Op → Int × State
  | .setOverlay info wake => enableOverlay K d info wake s
  | .disableOverlay => disableOverlay s
  | .displayOverlay display wake wakeAfter => displayOverlay K d display wake wakeAfter s
  | .pageflip phys wake => pageflip d phys wake s
  | .refresh yoffset wake => refresh K d yoffset wake s
  | .suspend wake => suspend d wake s
  | .resume clkOk wake => resume d clkOk wake s
  | .chgClk => (0, chgClk d s)
  | .updateDone => (0, updateDone d s)
  | .setParams params => (0, { s with params := params })

end LineageA1000.Dispc
