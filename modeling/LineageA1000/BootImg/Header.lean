import LineageA1000.Lib.Bytes
import LineageA1000.Lib.Errno
import Mathlib.Data.Nat.ModEq

/-!
# The boot image header

`parse_hdr`, `pad_to` and `split` of `a1000_bootimg_tool.py`. The header is the first page of the
image; its size fields decide where the kernel, the ramdisk, the second stage and the dt begin.
-/

namespace LineageA1000.BootImg

open Bytes

/-- Every way a command of the tool ends early: `sys.exit` with one of its messages, or a Python
exception. -/
inductive Fault
  | notBootImage
  | repackDiffers
  | doesNotFit (need room : Nat)
  | noSuchFile (name : Bytes)
  | structError
  | zeroDivision
  | valueError
  | zlibError
  deriving DecidableEq

structure Hdr where
  ks : Nat
  rs : Nat
  ss : Nat
  ps : Nat
  dts : Nat
  deriving DecidableEq

/-- `b'ANDROID!'`. -/
def androidMagic : Bytes := [0x41, 0x4E, 0x44, 0x52, 0x4F, 0x49, 0x44, 0x21]

/-- The header's fields end at byte 44, `struct.unpack('<9I', d[8:44])`. -/
def hdrFields : Nat := 44

/-- One of the nine words of the header. -/
def hdrWord (d : Bytes) (off : Nat) : Nat := leNat (d.slice off (off + 4))

def parseHdr (d : Bytes) : Except Fault Hdr :=
  if d.slice 0 8 ≠ androidMagic then .error .notBootImage
  else if (d.slice 8 hdrFields).length ≠ 36 then .error .structError
  else .ok
    { ks := hdrWord d 8, rs := hdrWord d 16, ss := hdrWord d 24, ps := hdrWord d 36,
      dts := hdrWord d 40 }

/-- `(n + ps - 1) // ps * ps`. -/
def roundUp (n ps : Nat) : Nat := (n + ps - 1) / ps * ps

def padTo (n ps : Nat) : Except Fault Nat :=
  if ps = 0 then .error .zeroDivision else .ok (roundUp n ps)

/-- What `split` returns. -/
structure Parts where
  hdr : Hdr
  kernel : Bytes
  rd : Bytes
  dt : Bytes
  deriving DecidableEq

def split (d : Bytes) : Except Fault Parts := do
  let h ← parseHdr d
  let ps := h.ps
  let offK := ps
  let offR := offK + (← padTo h.ks ps)
  let offS := offR + (← padTo h.rs ps)
  let offD := offS + (← padTo h.ss ps)
  return ⟨h, d.slice offK (offK + h.ks), d.slice offR (offR + h.rs), d.slice offD (offD + h.dts)⟩

/-! ### Section offsets -/

def Hdr.offR (h : Hdr) : Nat := h.ps + roundUp h.ks h.ps
def Hdr.offS (h : Hdr) : Nat := h.offR + roundUp h.rs h.ps
def Hdr.offD (h : Hdr) : Nat := h.offS + roundUp h.ss h.ps

/-- The second stage, which `split` skips. -/
def Hdr.second (h : Hdr) (d : Bytes) : Bytes := d.slice h.offS (h.offS + h.ss)

/-- All sections the header announces lie in the image. -/
def Hdr.Fits (h : Hdr) (d : Bytes) : Prop := h.offD + h.dts ≤ d.length

theorem Hdr.Fits.page {h : Hdr} {d : Bytes} (hfits : h.Fits d) : h.ps ≤ d.length := by
  simp only [Hdr.Fits, Hdr.offD, Hdr.offS, Hdr.offR] at hfits
  omega

theorem padTo_of_pos {ps : Nat} (hps : 0 < ps) (n : Nat) : padTo n ps = .ok (roundUp n ps) :=
  if_neg (by omega)

@[simp] theorem roundUp_zero_left (ps : Nat) : roundUp 0 ps = 0 := by
  rcases Nat.eq_zero_or_pos ps with rfl | hps
  · rfl
  · rw [roundUp, Nat.div_eq_of_lt (by omega), Nat.zero_mul]

theorem le_roundUp {ps : Nat} (hps : 0 < ps) (n : Nat) : n ≤ roundUp n ps := by
  have hdiv := Nat.div_add_mod (n + ps - 1) ps
  have hmod := Nat.mod_lt (n + ps - 1) hps
  rw [roundUp, Nat.mul_comm]
  omega

theorem parseHdr_eq_ok_iff {d : Bytes} {h : Hdr} :
    parseHdr d = .ok h ↔ d.slice 0 8 = androidMagic ∧ hdrFields ≤ d.length ∧
      h = ⟨hdrWord d 8, hdrWord d 16, hdrWord d 24, hdrWord d 36, hdrWord d 40⟩ := by
  have hlen : (d.slice 8 hdrFields).length = 36 ↔ hdrFields ≤ d.length := by
    rw [length_slice, hdrFields]
    omega
  unfold parseHdr
  split
  · rename_i hmagic
    simp [hmagic]
  · rename_i hmagic
    rw [not_not] at hmagic
    split
    · rename_i hshort
      rw [ne_eq, hlen] at hshort
      simp [hshort]
    · rename_i hfull
      rw [not_not, hlen] at hfull
      simp [hmagic, hfull, eq_comm]

theorem split_of_parseHdr {d : Bytes} {h : Hdr} (hparse : parseHdr d = .ok h) (hps : 0 < h.ps) :
    split d = .ok ⟨h, d.slice h.ps (h.ps + h.ks), d.slice h.offR (h.offR + h.rs),
      d.slice h.offD (h.offD + h.dts)⟩ := by
  simp only [split, hparse, ok_bind, padTo_of_pos hps]
  rfl

theorem split_eq_ok {d : Bytes} {p : Parts} (hsplit : split d = .ok p) :
    parseHdr d = .ok p.hdr ∧ 0 < p.hdr.ps := by
  obtain ⟨h, hparse, hrest⟩ := bind_eq_ok.1 hsplit
  have hps : 0 < h.ps := by
    obtain ⟨n, hn, -⟩ := bind_eq_ok.1 hrest
    rw [padTo, ite_error_eq_ok] at hn
    exact Nat.pos_of_ne_zero hn.1
  rw [split_of_parseHdr hparse hps, Except.ok.injEq] at hsplit
  subst hsplit
  exact ⟨hparse, hps⟩

end LineageA1000.BootImg
