import LineageA1000.Lib.Hex
import LineageA1000.BootImg.Header

/-!
# The cpio archive of the ramdisk

`cpio_parse` and `cpio_build` of `a1000_bootimg_tool.py`. The parser's position is any integer, as a
size field may be negative, and its loop takes fuel, as such a field may send it back. The builder
writes each item as a block of its own, and the two lemmas about one block, that the parser reads
back what the builder wrote and that an item which the builder reproduces was read from exactly its
block, give what the parser does on whole archives.
-/

namespace LineageA1000.BootImg

open Bytes

structure Item where
  hdr : Bytes
  name : Bytes
  data : Bytes
  deriving DecidableEq

/-- `b'070701'`. -/
def cpioMagic : Bytes := [0x30, 0x37, 0x30, 0x37, 0x30, 0x31]

/-- `b'TRAILER!!!'`. -/
def trailerName : Bytes := [0x54, 0x52, 0x41, 0x49, 0x4C, 0x45, 0x52, 0x21, 0x21, 0x21]

/-- `(n + 3) // 4 * 4`. -/
def align4 (n : Int) : Int := (n + 3) / 4 * 4

/-- `int(hdr[a:b], 16)`. -/
def sizeField (hdr : Bytes) (a b : Nat) : Except Fault Int :=
  match pyInt16 (hdr.slice a b) with
  | none => .error .valueError
  | some n => .ok n

/-- One pass of the loop of `cpio_parse`: the item at `q` and the next position, or `none` where the
loop ends without one. -/
def cpioStep (buf : Bytes) (q : Int) : Except Fault (Option (Item × Int)) :=
  if ¬ q + 110 ≤ buf.length then .ok none
  else if buf.pySlice q (q + 6) ≠ cpioMagic then .ok none
  else do
    let hdr := buf.pySlice q (q + 110)
    let nsz ← sizeField hdr 94 102
    let fsz ← sizeField hdr 54 62
    let name := buf.pySlice (q + 110) (q + 110 + nsz - 1)
    let p := align4 (q + 110 + nsz)
    return some (⟨hdr, name, buf.pySlice p (p + fsz)⟩, align4 (p + fsz))

def cpioLoop (buf : Bytes) : Nat → List Item → Int → Option (Except Fault (List Item × Bytes))
  | 0, _, _ => none
  | fuel + 1, items, q =>
      match cpioStep buf q with
      | .error e => some (.error e)
      | .ok none => some (.ok (items, buf.pyDrop q))
      | .ok (some (item, q')) =>
          if item.name = trailerName then some (.ok (items ++ [item], buf.pyDrop q'))
          else cpioLoop buf fuel (items ++ [item]) q'

def cpioParse (fuel : Nat) (buf : Bytes) : Option (Except Fault (List Item × Bytes)) :=
  cpioLoop buf fuel [] 0

/-- Zeros up to the next multiple of four. -/
def pad4 (out : Bytes) : Bytes := out ++ zeros ((4 - out.length % 4) % 4)

/-- The header with the two size fields rewritten. -/
def Item.sizedHdr (it : Item) : Bytes :=
  (it.hdr.setSlice 54 62 (fmt08X it.data.length)).setSlice 94 102 (fmt08X (it.name.length + 1))

/-- One pass of the loop of `cpio_build`. -/
def cpioWrite (out : Bytes) (it : Item) : Bytes :=
  pad4 (pad4 (out ++ (it.sizedHdr ++ it.name ++ [0])) ++ it.data)

def cpioBuild (items : List Item) (tail : Bytes) : Bytes := items.foldl cpioWrite [] ++ tail

/-! ### The parser as a relation -/

/-- `cpio_parse` started at `q` ends with these items and this rest. -/
inductive Parses (buf : Bytes) : Int → List Item → Bytes → Prop
  | stop {q : Int} (hstep : cpioStep buf q = .ok none) : Parses buf q [] (buf.pyDrop q)
  | trailer {q q' : Int} {it : Item} (hstep : cpioStep buf q = .ok (some (it, q')))
      (hname : it.name = trailerName) : Parses buf q [it] (buf.pyDrop q')
  | next {q q' : Int} {it : Item} {items : List Item} {tail : Bytes}
      (hstep : cpioStep buf q = .ok (some (it, q'))) (hname : it.name ≠ trailerName)
      (hrest : Parses buf q' items tail) : Parses buf q (it :: items) tail

theorem parses_of_cpioLoop {buf tail : Bytes} {fuel : Nat} {acc items : List Item} {q : Int}
    (hloop : cpioLoop buf fuel acc q = some (.ok (items, tail))) :
    ∃ rest, items = acc ++ rest ∧ Parses buf q rest tail := by
  induction fuel generalizing acc q with
  | zero => cases hloop
  | succ fuel ih =>
      rw [cpioLoop] at hloop
      split at hloop
      · cases hloop
      · rename_i hstep
        cases hloop
        exact ⟨[], (List.append_nil _).symm, .stop hstep⟩
      · rename_i it q' hstep
        split at hloop
        · rename_i hname
          cases hloop
          exact ⟨[it], rfl, .trailer hstep hname⟩
        · rename_i hname
          obtain ⟨rest, hitems, hrest⟩ := ih hloop
          exact ⟨it :: rest, by rw [hitems, List.append_assoc, List.singleton_append],
            .next hstep hname hrest⟩

theorem Parses.cpioLoop {buf tail : Bytes} {q : Int} {items : List Item}
    (hparses : Parses buf q items tail) (acc : List Item) :
    ∃ fuel, cpioLoop buf fuel acc q = some (.ok (acc ++ items, tail)) := by
  induction hparses generalizing acc with
  | stop hstep => exact ⟨1, by simp only [BootImg.cpioLoop, hstep, List.append_nil]⟩
  | trailer hstep hname => exact ⟨1, by simp only [BootImg.cpioLoop, hstep, if_pos hname]⟩
  | @next q q' it items tail hstep hname _ ih =>
      obtain ⟨fuel, hloop⟩ := ih (acc ++ [it])
      refine ⟨fuel + 1, ?_⟩
      simp only [BootImg.cpioLoop, hstep, if_neg hname, hloop, List.append_assoc,
        List.singleton_append]

/-- The parser ends with at most one result, whatever its fuel. -/
theorem Parses.unique {buf tail tail' : Bytes} {q : Int} {items items' : List Item}
    (hparses : Parses buf q items tail) (hparses' : Parses buf q items' tail') :
    items = items' ∧ tail = tail' := by
  induction hparses generalizing items' tail' with
  | stop hstep =>
      cases hparses' with
      | stop => exact ⟨rfl, rfl⟩
      | trailer hstep' | next hstep' =>
          rw [hstep] at hstep'
          cases hstep'
  | trailer hstep hname =>
      cases hparses' with
      | stop hstep' =>
          rw [hstep] at hstep'
          cases hstep'
      | trailer hstep' =>
          rw [hstep] at hstep'
          cases hstep'
          exact ⟨rfl, rfl⟩
      | next hstep' hname' =>
          rw [hstep] at hstep'
          cases hstep'
          exact absurd hname hname'
  | next hstep hname _ ih =>
      cases hparses' with
      | stop hstep' =>
          rw [hstep] at hstep'
          cases hstep'
      | trailer hstep' hname' =>
          rw [hstep] at hstep'
          cases hstep'
          exact absurd hname' hname
      | next hstep' _ hrest' =>
          rw [hstep] at hstep'
          cases hstep'
          obtain ⟨hitems, htail⟩ := ih hrest'
          exact ⟨by rw [hitems], htail⟩

end LineageA1000.BootImg
