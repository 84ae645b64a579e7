import Mathlib.Data.List.Basic
import Mathlib.Tactic.Ring
import Mathlib.Tactic.Linarith

/-!
# Byte strings

Python byte strings as lists: slices with Python's index rules, slice assignment, zero padding and
the little-endian reading of `struct`. The lemmas say what a slice of a concatenation is, which is
all that layouts built by concatenation and read by offsets need.
-/

namespace LineageA1000

abbrev Bytes := List UInt8

namespace Bytes

/-! ### Slices -/

/-- `xs[a:b]` for indices that are not negative. -/
def slice (xs : Bytes) (a b : Nat) : Bytes := (xs.take b).drop a

/-- A Python index as a position: negative ones count from the end, all are clamped. -/
def pyIndex (len : Nat) (i : Int) : Nat := if i < 0 then (i + len).toNat else min i.toNat len

/-- `xs[a:b]` for any integers. -/
def pySlice (xs : Bytes) (a b : Int) : Bytes :=
  xs.slice (pyIndex xs.length a) (pyIndex xs.length b)

/-- `xs[a:b] = ys` on a `bytearray`, for `a ≤ b`. -/
def setSlice (xs : Bytes) (a b : Nat) (ys : Bytes) : Bytes := xs.take a ++ ys ++ xs.drop b

def zeros (n : Nat) : Bytes := List.replicate n 0

@[simp] theorem length_zeros (n : Nat) : (zeros n).length = n := List.length_replicate

theorem length_slice (xs : Bytes) (a b : Nat) : (xs.slice a b).length = min b xs.length - a := by
  rw [slice, List.length_drop, List.length_take]

theorem getElem?_slice (xs : Bytes) (a b i : Nat) :
    (xs.slice a b)[i]? = if a + i < b then xs[a + i]? else none := by
  rw [slice, List.getElem?_drop, List.getElem?_take]

/-- A slice that lies behind a prefix. -/
theorem slice_append_right (xs ys : Bytes) {a b : Nat} (ha : xs.length ≤ a) :
    (xs ++ ys).slice a b = ys.slice (a - xs.length) (b - xs.length) := by
  apply List.ext_getElem?
  intro i
  rw [getElem?_slice, getElem?_slice, List.getElem?_append_right (by omega)]
  have hidx : a + i - xs.length = a - xs.length + i := by omega
  rw [hidx]
  by_cases h : a + i < b
  · rw [if_pos h, if_pos (by omega)]
  · rw [if_neg h, if_neg (by omega)]

/-- A slice that lies inside a prefix. -/
theorem slice_append_left (xs ys : Bytes) {a b : Nat} (hb : b ≤ xs.length) :
    (xs ++ ys).slice a b = xs.slice a b := by
  rw [slice, List.take_append_of_le_length hb, slice]

@[simp] theorem slice_zero_length (xs : Bytes) : xs.slice 0 xs.length = xs := by
  rw [slice, List.take_length, List.drop_zero]

/-- The slice of a concatenation that is its middle part. -/
theorem slice_append_mid (xs ys zs : Bytes) {a b : Nat} (ha : a = xs.length)
    (hb : b = xs.length + ys.length) : (xs ++ (ys ++ zs)).slice a b = ys := by
  subst ha hb
  rw [slice_append_right xs _ le_rfl, Nat.sub_self, Nat.add_sub_cancel_left,
    slice_append_left ys zs le_rfl, slice_zero_length]

theorem slice_eq_drop {xs : Bytes} {a b : Nat} (hb : xs.length ≤ b) :
    xs.slice a b = xs.drop a := by
  rw [slice, List.take_of_length_le hb]

/-- A slice of a slice that lies inside it. -/
theorem slice_slice (xs : Bytes) {a b c d : Nat} (hd : a + d ≤ b) :
    (xs.slice a b).slice c d = xs.slice (a + c) (a + d) := by
  apply List.ext_getElem?
  intro i
  rw [getElem?_slice, getElem?_slice, getElem?_slice, ← Nat.add_assoc]
  by_cases hi : c + i < d
  · rw [if_pos hi, if_pos (by omega), if_pos (by omega)]
  · rw [if_neg hi, if_neg (by omega)]

theorem slice_zero_append {xs ys : Bytes} {n : Nat} (hlen : xs.length = min n (xs ++ ys).length) :
    (xs ++ ys).slice 0 n = xs := by
  rw [List.length_append] at hlen
  by_cases hn : n = xs.length
  · rw [hn, slice_append_left xs ys le_rfl, slice_zero_length]
  · have hys : ys = [] := List.eq_nil_of_length_eq_zero (by omega)
    rw [hys, List.append_nil, slice_eq_drop (by omega), List.drop_zero]

@[simp] theorem slice_self (xs : Bytes) (a : Nat) : xs.slice a a = [] := by
  apply List.eq_nil_of_length_eq_zero
  rw [length_slice]
  omega

theorem pyIndex_natCast (len n : Nat) : pyIndex len (n : Int) = min n len := by
  rw [pyIndex, if_neg (by omega), Int.toNat_natCast]

theorem pySlice_natCast (xs : Bytes) (a b : Nat) :
    xs.pySlice (a : Int) (b : Int) = xs.slice a b := by
  rw [pySlice, pyIndex_natCast, pyIndex_natCast]
  apply List.ext_getElem?
  intro i
  rw [getElem?_slice, getElem?_slice]
  by_cases ha : a ≤ xs.length
  · rw [min_eq_left ha]
    by_cases h : a + i < min b xs.length
    · rw [if_pos h, if_pos (by omega)]
    · rw [if_neg h]
      split
      · rw [List.getElem?_eq_none (by omega)]
      · rfl
  · rw [if_neg (by omega)]
    split
    · rw [List.getElem?_eq_none (by omega)]
    · rfl

theorem length_pySlice_le (xs : Bytes) {a b : Int} (hab : a ≤ b) :
    ((xs.pySlice a b).length : Int) ≤ b - a := by
  rw [pySlice, length_slice, pyIndex, pyIndex]
  split_ifs <;> omega

/-- `xs[a:]` for any integer. -/
def pyDrop (xs : Bytes) (a : Int) : Bytes := xs.drop (pyIndex xs.length a)

theorem pyDrop_natCast (xs : Bytes) (a : Nat) : xs.pyDrop (a : Int) = xs.drop a := by
  rw [pyDrop, pyIndex_natCast]
  rcases le_total a xs.length with h | h
  · rw [min_eq_left h]
  · rw [min_eq_right h, List.drop_length, List.drop_eq_nil_of_le h]

theorem length_setSlice {xs : Bytes} {a b : Nat} (ys : Bytes) (hab : a ≤ b) (hb : b ≤ xs.length) :
    (xs.setSlice a b ys).length = xs.length - (b - a) + ys.length := by
  rw [setSlice, List.length_append, List.length_append, List.length_take, List.length_drop]
  omega

/-- Slice assignment of the same length changes the bytes of the slice and no others. -/
theorem getElem?_setSlice {xs ys : Bytes} {a b : Nat} (hb : b ≤ xs.length)
    (hys : a + ys.length = b) (i : Nat) :
    (xs.setSlice a b ys)[i]? = if i < a then xs[i]? else if i < b then ys[i - a]? else xs[i]? := by
  have hlen : (xs.take a).length = a := by
    rw [List.length_take]
    omega
  rw [setSlice, List.append_assoc]
  by_cases hia : i < a
  · rw [if_pos hia, List.getElem?_append_left (by omega), List.getElem?_take, if_pos hia]
  · rw [if_neg hia, List.getElem?_append_right (by omega), hlen]
    by_cases hib : i < b
    · rw [if_pos hib, List.getElem?_append_left (by omega)]
    · rw [if_neg hib, List.getElem?_append_right (by omega), List.getElem?_drop]
      congr 1
      omega

theorem slice_congr {xs ys : Bytes} {a b : Nat} (h : ∀ i, a ≤ i → i < b → xs[i]? = ys[i]?) :
    xs.slice a b = ys.slice a b := by
  apply List.ext_getElem?
  intro i
  rw [getElem?_slice, getElem?_slice]
  by_cases hi : a + i < b
  · rw [if_pos hi, if_pos hi, h _ (by omega) hi]
  · rw [if_neg hi, if_neg hi]

theorem slice_setSlice_before {xs : Bytes} {a c d : Nat} (ys : Bytes) (b : Nat) (hd : d ≤ a)
    (ha : a ≤ xs.length) : (xs.setSlice a b ys).slice c d = xs.slice c d := by
  have hlen : (xs.take a).length = a := by
    rw [List.length_take]
    omega
  rw [setSlice, List.append_assoc, slice_append_left _ _ (by omega), slice, List.take_take,
    min_eq_left hd, slice]

theorem slice_setSlice_at {xs ys : Bytes} {a n : Nat} (b : Nat) (ha : a ≤ xs.length)
    (hn : n ≤ ys.length) : (xs.setSlice a b ys).slice a (a + n) = ys.slice 0 n := by
  have hlen : (xs.take a).length = a := by
    rw [List.length_take]
    omega
  rw [setSlice, List.append_assoc, slice_append_right _ _ (by omega), hlen, Nat.sub_self,
    Nat.add_sub_cancel_left, slice_append_left _ _ hn]

theorem slice_setSlice_after {xs ys : Bytes} {a b c d : Nat} (hb : b ≤ xs.length)
    (hys : a + ys.length = b) (hc : b ≤ c) : (xs.setSlice a b ys).slice c d = xs.slice c d := by
  apply slice_congr
  intro i hi _
  rw [getElem?_setSlice hb hys, if_neg (by omega), if_neg (by omega)]

/-- Assigning a slice to itself. -/
theorem setSlice_slice (xs : Bytes) {a b : Nat} (hab : a ≤ b) :
    xs.setSlice a b (xs.slice a b) = xs := by
  have hsplit := List.take_append_drop a (xs.take b)
  rw [List.take_take, min_eq_left hab] at hsplit
  rw [setSlice, slice, hsplit, List.take_append_drop]

/-! ### Zero padding -/

theorem eq_zeros_iff {xs : Bytes} :
    xs = zeros xs.length ↔ ∀ (i : Nat) (b : UInt8), xs[i]? = some b → b = 0 := by
  rw [zeros, List.eq_replicate_iff]
  simp only [true_and, List.mem_iff_getElem?, forall_exists_index]
  exact ⟨fun h i b hi => h b i hi, fun h b i hi => h i b hi⟩

theorem zeros_append_zeros (m n : Nat) : zeros m ++ zeros n = zeros (m + n) :=
  List.replicate_append_replicate

theorem slice_zeros (n a b : Nat) : (zeros n).slice a b = zeros (min b n - a) := by
  rw [slice, zeros, List.take_replicate, List.drop_replicate, zeros]

/-- A string that reappears some bytes further on, with only zeros behind it, is all zeros: each of
its bytes is a later one of its bytes, and the last ones are padding. -/
theorem eq_zeros_of_slice_shift {xs : Bytes} {m s n : Nat} (hs : 0 < s)
    (hslice : (xs ++ zeros m).slice s (s + n) = xs) : xs = zeros xs.length := by
  rw [eq_zeros_iff]
  intro i b hi
  -- induction on the distance of the byte from the end
  generalize hk : xs.length - i = k
  induction k using Nat.strong_induction_on generalizing i with
  | _ k ih =>
      have hlt : i < xs.length := (List.getElem?_eq_some_iff.1 hi).1
      have hshift : (xs ++ zeros m)[s + i]? = some b := by
        have hget := getElem?_slice (xs ++ zeros m) s (s + n) i
        rw [hslice, hi] at hget
        split at hget
        · exact hget.symm
        · cases hget
      by_cases hin : s + i < xs.length
      · rw [List.getElem?_append_left hin] at hshift
        exact ih (xs.length - (s + i)) (by omega) (s + i) hshift rfl
      · rw [List.getElem?_append_right (by omega)] at hshift
        exact List.eq_of_mem_replicate (List.mem_of_getElem? hshift)

/-! ### Little-endian numbers -/

/-- The `n` bytes of `struct.pack` for an unsigned little-endian number. -/
def leBytes : Nat → Nat → Bytes
  | 0, _ => []
  | n + 1, k => UInt8.ofNat k :: leBytes n (k / 256)

def leNat : Bytes → Nat
  | [] => 0
  | b :: bs => b.toNat + 256 * leNat bs

@[simp] theorem length_leBytes (n k : Nat) : (leBytes n k).length = n := by
  induction n generalizing k with
  | zero => rfl
  | succ n ih => rw [leBytes, List.length_cons, ih]

theorem leNat_leBytes {n k : Nat} (hk : k < 256 ^ n) : leNat (leBytes n k) = k := by
  induction n generalizing k with
  | zero =>
      rw [pow_zero] at hk
      rw [leBytes, leNat]
      omega
  | succ n ih =>
      have hdiv : k / 256 < 256 ^ n := by
        rw [pow_succ] at hk
        exact Nat.div_lt_of_lt_mul (by rw [Nat.mul_comm]; exact hk)
      rw [leBytes, leNat, ih hdiv, UInt8.toNat_ofNat']
      omega

end Bytes

end LineageA1000
