import LineageA1000.Dispc.Overlay
import LineageA1000.Shim.Pixel
import Mathlib.Logic.Function.Basic
import Mathlib.Data.List.FinRange

/-!
# The ioctl interposer

The shim stands between a process and the display driver. It may rewrite the address of a
`SET_OVERLAY` and, where the CPU does the colours, rotates the presented buffer once: what it left
in a buffer it remembers as a hash under the descriptor through which it reached the buffer. Buffers
come by physical address; a table filled by the allocator gives a descriptor for an address, a `dup`
of the caller's. Descriptors are the lowest free numbers.
-/

namespace LineageA1000.Shim

open Dispc (OverlayInfo)

/-- A buffer, whatever descriptors and addresses lead to it. -/
abbrev Buf := Nat

/-! ### The descriptor table of the process -/

inductive Owner where
  | app
  | shim
  deriving DecidableEq, Repr

abbrev Files := List (Option (Owner × Buf))

namespace Files

def lookup (files : Files) (fd : Int) : Option (Owner × Buf) :=
  if fd < 0 then none else (files[fd.toNat]?).join

def lowestFree (files : Files) : Nat := files.findIdx Option.isNone

/-- A new descriptor: the lowest free number. -/
def install (files : Files) (owner : Owner) (buf : Buf) : Files :=
  if files.lowestFree < files.length then files.set files.lowestFree (some (owner, buf))
  else files ++ [some (owner, buf)]

def close (files : Files) (fd : Int) : Files :=
  if fd < 0 then files else files.set fd.toNat none

/-- `dup` into the hands of the shim; `-1` when the descriptor is not open. -/
def dup (files : Files) (fd : Int) : Int × Files :=
  match files.lookup fd with
  | some (_, buf) => (files.lowestFree, files.install .shim buf)
  | none => (-1, files)

end Files

/-! ### What the shim remembers -/

abbrev FDMAP : Nat := 24
abbrev PHYSMAP : Nat := 16

scoped instance instNeZeroFdmap : NeZero FDMAP := ⟨by decide⟩
scoped instance instNeZeroPhysmap : NeZero PHYSMAP := ⟨by decide⟩

/-- The hash last left behind a descriptor. A zero descriptor marks a free entry. -/
structure FdEntry where
  fd : Int
  hash : Word
  deriving DecidableEq, Repr

structure FdMap where
  entries : Fin FDMAP → FdEntry
  rr : Fin FDMAP

/-- The first index that satisfies the test. -/
def findIndex {n : Nat} (test : Fin n → Bool) : Option (Fin n) := (List.finRange n).find? test

/-- `fd_slot`: the entry of a descriptor; a new one starts with the hash zero, in a free place or
over the next one in turn. -/
def fdSlot (fd : Int) (t : FdMap) : Fin FDMAP × FdMap :=
  match findIndex fun i => decide ((t.entries i).fd = fd) with
  | some i => (i, t)
  | none =>
      match findIndex fun i => decide ((t.entries i).fd = 0) with
      | some i => (i, { t with entries := Function.update t.entries i ⟨fd, 0⟩ })
      | none => (t.rr, ⟨Function.update t.entries t.rr ⟨fd, 0⟩, t.rr + 1⟩)

structure PhysEntry where
  phys : Word
  fd : Int
  len : Word
  deriving DecidableEq, Repr

structure PhysMap where
  entries : Fin PHYSMAP → PhysEntry
  rr : Fin PHYSMAP

def findPhys (phys : Word) (t : PhysMap) : Option (Fin PHYSMAP) :=
  findIndex fun i => decide ((t.entries i).phys = phys)

/-- The first buffer this process posted, the zero address before; `off` with `/data/gsp_nopin`. -/
structure Pin where
  off : Bool
  addr : Word
  deriving DecidableEq, Repr

/-- Who does the colours: a fixed permutation of the controller (`/data/gsp_hwcolor`), the GPU
(`/data/gsp_nocpucolor`) or the CPU. -/
inductive ColourMode where
  | hardware (endian : Int) (rb : Bool)
  | gpu
  | cpu
  deriving DecidableEq, Repr

structure Process where
  files : Files
  fdMap : FdMap
  physMap : PhysMap
  pin : Pin
  mode : ColourMode
  mem : Buf → List Byte

/-! ### Recording an address -/

/-- The entry an address is recorded in: its own, a free one, or the next one in turn. -/
def recordIndex (phys : Word) (t : PhysMap) : Fin PHYSMAP × Fin PHYSMAP :=
  match findPhys phys t with
  | some i => (i, t.rr)
  | none =>
      match findPhys 0 t with
      | some i => (i, t.rr)
      | none => (t.rr, t.rr + 1)

/-- `_sprdcolor_record`. The descriptor the entry held is closed, never descriptor zero. -/
def record (phys : Word) (fd : Int) (len : Word) (p : Process) : Process :=
  if phys = 0 ∨ fd < 0 then p
  else
    let (i, rr) := recordIndex phys p.physMap
    let old := p.physMap.entries i
    let files := if old.phys ≠ 0 ∧ 0 < old.fd then p.files.close old.fd else p.files
    let (dupfd, files) := files.dup fd
    { p with files, physMap := ⟨Function.update p.physMap.entries i ⟨phys, dupfd, len⟩, rr⟩ }

/-! ### Presenting -/

abbrev SPRD_LAYER_OSD : Word := 2
abbrev SPRD_DATA_FORMAT_RGB888 : Int := 3

/-- The presentations `handle_osd` takes: a 32-bit RGB buffer on the OSD layer. -/
def osdEligible (o : OverlayInfo) : Bool :=
  o.layerIndex == SPRD_LAYER_OSD && o.dataType == SPRD_DATA_FORMAT_RGB888 && o.buffer != 0 &&
    o.rect.w != 0 && o.rect.h != 0

/-- The address handed on to the driver, and the pin. -/
def Pin.apply (pin : Pin) (buffer : Word) : Pin × Word :=
  if pin.off then (pin, buffer)
  else if pin.addr = 0 then ({ pin with addr := buffer }, buffer)
  else (pin, pin.addr)

/-- What `handle_osd` makes of the argument of a `SET_OVERLAY`. -/
def osdArg (pin : Pin) (mode : ColourMode) (o : OverlayInfo) : Pin × OverlayInfo :=
  if osdEligible o then
    let (pin, buffer) := pin.apply o.buffer
    match mode with
    | .hardware endian rb => (pin, { o with buffer, yEndian := endian, rbSwitch := rb })
    | _ => (pin, { o with buffer })
  else (pin, o)

/-- The rotation of a mapped buffer: skipped when the hash is the one left behind last time. -/
def rotateOnce (fd : Int) (buf : Buf) (npix : Nat) (p : Process) : Process :=
  let (j, t) := fdSlot fd p.fdMap
  if (t.entries j).hash = hashPixels npix (p.mem buf) then { p with fdMap := t }
  else
    let (hash, m) := process (p.mem buf) npix true
    { p with
      fdMap := { t with entries := Function.update t.entries j ⟨(t.entries j).fd, hash⟩ }
      mem := Function.update p.mem buf m }

def osdPixels (o : OverlayInfo) : Nat := o.rect.w.toNat * o.rect.h.toNat

/-- `handle_osd`; `mapped` says whether `mmap` succeeds. -/
def handleOsd (o : OverlayInfo) (mapped : Bool) (p : Process) : OverlayInfo × Process :=
  let (pin, o') := osdArg p.pin p.mode o
  let p := { p with pin }
  if osdEligible o ∧ p.mode = .cpu ∧ mapped then
    match findPhys o'.buffer p.physMap with
    | none => (o', p)
    | some i =>
        match p.files.lookup (p.physMap.entries i).fd with
        | none => (o', p)
        | some (_, buf) => (o', rotateOnce (p.physMap.entries i).fd buf (osdPixels o) p)
  else (o', p)

/-- A source layer of a GSP configuration. -/
structure GspLayer where
  enabled : Bool
  shareFd : Int
  pitch : Word
  rectH : BitVec 16
  deriving DecidableEq, Repr

def gspEligible (l : GspLayer) : Bool :=
  l.enabled && decide (0 < l.shareFd) && l.pitch != 0 && l.rectH != 0

def gspPixels (l : GspLayer) : Nat := (l.pitch * l.rectH.setWidth 32).toNat

/-- `handle_layer`. -/
def handleLayer (l : GspLayer) (mapped : Bool) (p : Process) : Process :=
  if gspEligible l ∧ mapped then
    match p.files.lookup l.shareFd with
    | none => p
    | some (_, buf) => rotateOnce l.shareFd buf (gspPixels l) p
  else p

/-! ### Descriptors -/

namespace Files

theorem lookup_nonneg {files : Files} {fd : Int} {x : Owner × Buf} (h : files.lookup fd = some x) :
    0 ≤ fd ∧ files[fd.toNat]? = some (some x) := by
  unfold lookup at h
  split at h
  · cases h
  · exact ⟨by omega, Option.join_eq_some_iff.1 h⟩

/-- The lowest free number is not open. -/
theorem lookup_lowestFree (files : Files) : files.lookup files.lowestFree = none := by
  unfold lookup
  rw [if_neg (by omega), Int.toNat_natCast]
  by_cases hlt : files.lowestFree < files.length
  · have hnone := List.findIdx_getElem (w := hlt)
    rw [List.getElem?_eq_getElem hlt]
    rw [Option.isNone_iff_eq_none] at hnone
    exact congrArg Option.join (congrArg some hnone)
  · rw [List.getElem?_eq_none (by omega)]
    rfl

theorem lookup_install (files : Files) (owner : Owner) (buf : Buf) (fd : Int) :
    (files.install owner buf).lookup fd =
      if fd = files.lowestFree then some (owner, buf) else files.lookup fd := by
  have hle : files.lowestFree ≤ files.length := List.findIdx_le_length
  unfold lookup
  by_cases hneg : fd < 0
  · rw [if_pos hneg, if_neg (by omega), if_pos hneg]
  · rw [if_neg hneg, if_neg hneg]
    by_cases heq : fd = files.lowestFree
    · rw [if_pos heq, show fd.toNat = files.lowestFree by omega, install]
      split
      · rw [List.getElem?_set_self (by assumption)]
        rfl
      · rw [List.getElem?_append_right (by omega),
          show files.lowestFree - files.length = 0 by omega]
        rfl
    · rw [if_neg heq, install]
      split
      · rw [List.getElem?_set_ne (by omega)]
      · rw [List.getElem?_append]
        split
        · rfl
        · have hpast : [some (owner, buf)].length ≤ fd.toNat - files.length := by
            rw [List.length_singleton]
            omega
          rw [List.getElem?_eq_none hpast, List.getElem?_eq_none (by omega)]

theorem lookup_close (files : Files) (fd fd' : Int) :
    (files.close fd).lookup fd' = if fd' = fd then none else files.lookup fd' := by
  unfold close lookup
  by_cases hneg : fd' < 0
  · simp only [hneg, if_true, ite_self]
  · rw [if_neg hneg, if_neg hneg]
    by_cases heq : fd' = fd
    · rw [if_pos heq, if_neg (by omega), heq]
      by_cases hlt : fd.toNat < files.length
      · rw [List.getElem?_set_self hlt]
        rfl
      · rw [List.getElem?_eq_none (by rw [List.length_set]; omega)]
        rfl
    · rw [if_neg heq]
      split
      · rfl
      · rw [List.getElem?_set_ne (by omega)]

end Files

theorem findIndex_some {n : Nat} {test : Fin n → Bool} {i : Fin n} (h : findIndex test = some i) :
    test i = true := List.find?_some h

theorem findIndex_none {n : Nat} {test : Fin n → Bool} (h : findIndex test = none) (i : Fin n) :
    test i = false := by
  have hall := List.find?_eq_none.1 h i (List.mem_finRange i)
  simpa using hall

end LineageA1000.Shim
