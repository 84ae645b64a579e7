import Mathlib.Data.BitVec
import Mathlib.Data.List.Basic
import Mathlib.Tactic.IntervalCases

/-!
# Rotating and hashing pixels

`process` walks over a buffer of four-byte pixels, in blocks of sixteen by vector registers and then
one by one. It hashes what it sees and, asked to rotate, first turns each [R,G,B,A] into [G,B,R,A]
and hashes what it leaves. `rotatePixels` is the permutation said plainly. The rest of the
development uses that a rotating pass leaves the rotation and returns the hash a reading pass finds.
-/

namespace LineageA1000.Shim

abbrev Byte := BitVec 8
abbrev Word := BitVec 32

/-! ### The vector blocks -/

/-- `vld4q_u8`: byte `k` of pixel `i`. -/
def val (px : List Byte) (k i : Nat) : Byte := px.getD (4 * i + k) 0

/-- `vst4q_u8` of the permuted registers for `n` pixels. -/
def storeRotated (n : Nat) (px : List Byte) : List Byte :=
  (List.range n).flatMap fun i => [val px 1 i, val px 2 i, val px 0 i, val px 3 i]

/-- `vreinterpretq_u32_u8`: lane `j` of register `k`. -/
def laneWord (px : List Byte) (k : Nat) (j : Fin 4) : Word :=
  (val px k (4 * j)).setWidth 32 ||| (val px k (4 * j + 1)).setWidth 32 <<< 8 |||
    (val px k (4 * j + 2)).setWidth 32 <<< 16 ||| (val px k (4 * j + 3)).setWidth 32 <<< 24

abbrev Lanes := Fin 4 → Word

def accumulate (acc : Lanes) (px : List Byte) : Lanes := fun j =>
  acc j * 2654435761 + laneWord px 0 j * 0x9E3779B1 + laneWord px 1 j * 0x85EBCA77 +
    laneWord px 2 j * 0xC2B2AE3D + laneWord px 3 j * 0x27D4EB2F

def laneHash (acc : Lanes) : Word :=
  acc 0 * 1 + acc 1 * 2246822519 + acc 2 * 3266489917 + acc 3 * 668265263

/-- The loop over whole blocks: the accumulator and the blocks as left. -/
def blockLoop (rotate : Bool) : Nat → Lanes → List Byte → Lanes × List Byte
  | 0, acc, m => (acc, m)
  | k + 1, acc, m =>
      let px := m.take 64
      let s := if rotate then storeRotated 16 px else px
      let (acc, rest) := blockLoop rotate k (accumulate acc s) (m.drop 64)
      (acc, s ++ rest)

/-! ### The single pixels -/

/-- A pixel read as a little-endian word. -/
def pack (r g b a : Byte) : Word :=
  r.setWidth 32 ||| g.setWidth 32 <<< 8 ||| b.setWidth 32 <<< 16 ||| a.setWidth 32 <<< 24

def unpack (v : Word) : List Byte :=
  [v.extractLsb' 0 8, v.extractLsb' 8 8, v.extractLsb' 16 8, v.extractLsb' 24 8]

def rotateWord (v : Word) : Word :=
  (v &&& 0xFF000000#32) ||| (v &&& 0x00FFFF00#32) >>> 8 ||| (v &&& 0x000000FF#32) <<< 16

/-- The loop over the pixels after the last whole block. Past the end of the list there is nothing
to walk over. -/
def pixelLoop (rotate : Bool) : Nat → Word → List Byte → Word × List Byte
  | n + 1, h, r :: g :: b :: a :: m =>
      let v := if rotate then rotateWord (pack r g b a) else pack r g b a
      let (h, rest) := pixelLoop rotate n (h * 2654435761 + v) m
      (h, (if rotate then unpack v else [r, g, b, a]) ++ rest)
  | _, h, m => (h, m)

def process (m : List Byte) (npix : Nat) (rotate : Bool) : Word × List Byte :=
  let blocks := npix / 16
  let (acc, body) := blockLoop rotate blocks (fun _ => 0) (m.take (64 * blocks))
  let (h, rest) := pixelLoop rotate (npix % 16) (laneHash acc) (m.drop (64 * blocks))
  (h, body ++ rest)

/-! ### The permutation -/

/-- The first `n` pixels permuted. -/
def rotatePixels : Nat → List Byte → List Byte
  | n + 1, r :: g :: b :: a :: m => g :: b :: r :: a :: rotatePixels n m
  | _, m => m

def hashPixels (npix : Nat) (m : List Byte) : Word := (process m npix false).1

@[simp] theorem rotatePixels_zero (m : List Byte) : rotatePixels 0 m = m := rfl

theorem rotatePixels_succ (n : Nat) (r g b a : Byte) (m : List Byte) :
    rotatePixels (n + 1) (r :: g :: b :: a :: m) = g :: b :: r :: a :: rotatePixels n m := rfl

/-- A list with room for a pixel begins with one. -/
theorem exists_pixel {n : Nat} {m : List Byte} (h : 4 * (n + 1) ≤ m.length) :
    ∃ r g b a m', m = r :: g :: b :: a :: m' ∧ 4 * n ≤ m'.length := by
  match m, h with
  | r :: g :: b :: a :: m', h =>
      refine ⟨r, g, b, a, m', rfl, ?_⟩
      simp only [List.length_cons] at h
      omega

@[simp] theorem length_rotatePixels (n : Nat) (m : List Byte) :
    (rotatePixels n m).length = m.length := by
  induction n, m using rotatePixels.induct with
  | case1 n r g b a m ih => simp [rotatePixels_succ, ih]
  | case2 n m h => rw [rotatePixels.eq_2 _ _ h]

theorem rotatePixels_add (k n : Nat) {m : List Byte} (h : 4 * k ≤ m.length) :
    rotatePixels (k + n) m =
      rotatePixels k (m.take (4 * k)) ++ rotatePixels n (m.drop (4 * k)) := by
  induction k generalizing m with
  | zero => simp
  | succ k ih =>
      obtain ⟨r, g, b, a, m', rfl, hm'⟩ := exists_pixel h
      have htake : 4 * (k + 1) = 4 * k + 1 + 1 + 1 + 1 := by omega
      rw [show k + 1 + n = k + n + 1 by omega, htake]
      simp only [List.take_succ_cons, List.drop_succ_cons, rotatePixels_succ, ih hm',
        List.cons_append]

theorem storeRotated_eq {n : Nat} {px : List Byte} (h : px.length = 4 * n) :
    storeRotated n px = rotatePixels n px := by
  induction n generalizing px with
  | zero =>
      have hnil : px = [] := List.eq_nil_of_length_eq_zero (by omega)
      subst hnil
      rfl
  | succ n ih =>
      obtain ⟨r, g, b, a, m, rfl, -⟩ := exists_pixel (Nat.le_of_eq h.symm)
      have hm : m.length = 4 * n := by
        simp only [List.length_cons] at h
        omega
      have hval (k i : Nat) : val (r :: g :: b :: a :: m) k (i + 1) = val m k i := by
        show (r :: g :: b :: a :: m).getD (4 * (i + 1) + k) 0 = m.getD (4 * i + k) 0
        rw [show 4 * (i + 1) + k = 4 * i + k + 1 + 1 + 1 + 1 by omega]
        rfl
      rw [rotatePixels_succ, ← ih hm]
      unfold storeRotated
      rw [List.range_succ_eq_map, List.flatMap_cons, List.flatMap_map]
      simp only [hval]
      rfl

theorem rotateWord_pack (r g b a : Byte) : rotateWord (pack r g b a) = pack g b r a := by
  unfold rotateWord pack
  apply BitVec.eq_of_getLsbD_eq
  intro i hi
  interval_cases i <;> simp

theorem unpack_pack (r g b a : Byte) : unpack (pack r g b a) = [r, g, b, a] := by
  have hr : (pack r g b a).extractLsb' 0 8 = r := by
    apply BitVec.eq_of_getLsbD_eq
    intro i hi
    interval_cases i <;> simp [pack]
  have hg : (pack r g b a).extractLsb' 8 8 = g := by
    apply BitVec.eq_of_getLsbD_eq
    intro i hi
    interval_cases i <;> simp [pack]
  have hb : (pack r g b a).extractLsb' 16 8 = b := by
    apply BitVec.eq_of_getLsbD_eq
    intro i hi
    interval_cases i <;> simp [pack]
  have ha : (pack r g b a).extractLsb' 24 8 = a := by
    apply BitVec.eq_of_getLsbD_eq
    intro i hi
    interval_cases i <;> simp [pack]
  rw [unpack, hr, hg, hb, ha]

/-! ### What a pass leaves and returns -/

theorem blockLoop_read (k : Nat) (acc : Lanes) (m : List Byte) :
    (blockLoop false k acc m).2 = m := by
  induction k generalizing acc m with
  | zero => rfl
  | succ k ih =>
      show m.take 64 ++ (blockLoop false k (accumulate acc (m.take 64)) (m.drop 64)).2 = m
      rw [ih, List.take_append_drop]

theorem pixelLoop_read (n : Nat) (h : Word) (m : List Byte) : (pixelLoop false n h m).2 = m := by
  induction n generalizing h m with
  | zero => rfl
  | succ n ih =>
      match m with
      | r :: g :: b :: a :: m' =>
          show [r, g, b, a] ++ (pixelLoop false n (h * 2654435761 + pack r g b a) m').2 = _
          rw [ih]
          rfl
      | [] | [_] | [_, _] | [_, _, _] => rfl

/-- A reading pass changes nothing. -/
theorem process_read (m : List Byte) (npix : Nat) : (process m npix false).2 = m := by
  unfold process
  dsimp only
  rw [blockLoop_read, pixelLoop_read, List.take_append_drop]

/-- Over whole blocks the rotating loop leaves the rotation and accumulates what the reading loop
accumulates over it. -/
theorem blockLoop_rotate (k : Nat) (acc : Lanes) {m : List Byte} (hm : m.length = 64 * k) :
    blockLoop true k acc m =
      ((blockLoop false k acc (rotatePixels (16 * k) m)).1, rotatePixels (16 * k) m) := by
  induction k generalizing acc m with
  | zero => simp [blockLoop]
  | succ k ih =>
      have htake : (m.take 64).length = 4 * 16 := by
        rw [List.length_take]
        omega
      have hdrop : (m.drop 64).length = 64 * k := by
        rw [List.length_drop]
        omega
      have hsplit : rotatePixels (16 * (k + 1)) m =
          rotatePixels 16 (m.take 64) ++ rotatePixels (16 * k) (m.drop 64) := by
        rw [show 16 * (k + 1) = 16 + 16 * k by omega, rotatePixels_add 16 (16 * k) (by omega)]
      have hlength : (rotatePixels 16 (m.take 64)).length = 64 := by
        rw [length_rotatePixels, htake]
      simp only [blockLoop, if_true, storeRotated_eq htake, ih _ hdrop, hsplit,
        Bool.false_eq_true, if_false]
      rw [List.take_left' hlength, List.drop_left' hlength]

theorem pixelLoop_rotate (n : Nat) (h : Word) {m : List Byte} (hm : 4 * n ≤ m.length) :
    pixelLoop true n h m = ((pixelLoop false n h (rotatePixels n m)).1, rotatePixels n m) := by
  induction n generalizing h m with
  | zero => rfl
  | succ n ih =>
      obtain ⟨r, g, b, a, m', rfl, hm'⟩ := exists_pixel hm
      simp only [pixelLoop, rotatePixels_succ, if_true, rotateWord_pack, unpack_pack, ih _ hm',
        Bool.false_eq_true, if_false]
      rfl

/-- A rotating pass within the buffer leaves the rotation and returns the hash a reading pass finds
there afterwards. -/
theorem process_rotate {m : List Byte} {npix : Nat} (hm : 4 * npix ≤ m.length) :
    process m npix true = (hashPixels npix (rotatePixels npix m), rotatePixels npix m) := by
  have hdivision := Nat.div_add_mod npix 16
  have htake : (m.take (64 * (npix / 16))).length = 64 * (npix / 16) := by
    rw [List.length_take]
    omega
  have hdrop : 4 * (npix % 16) ≤ (m.drop (64 * (npix / 16))).length := by
    rw [List.length_drop]
    omega
  have hsplit : rotatePixels npix m =
      rotatePixels (16 * (npix / 16)) (m.take (64 * (npix / 16))) ++
        rotatePixels (npix % 16) (m.drop (64 * (npix / 16))) := by
    have hadd := rotatePixels_add (16 * (npix / 16)) (npix % 16) (m := m) (by omega)
    rw [hdivision, show 4 * (16 * (npix / 16)) = 64 * (npix / 16) by omega] at hadd
    exact hadd
  have hlength : (rotatePixels (16 * (npix / 16)) (m.take (64 * (npix / 16)))).length =
      64 * (npix / 16) := by
    rw [length_rotatePixels, htake]
  unfold hashPixels process
  simp only [blockLoop_rotate _ _ htake, pixelLoop_rotate _ _ hdrop, hsplit]
  rw [List.take_left' hlength, List.drop_left' hlength]

end LineageA1000.Shim
