import LineageA1000.Lib.Bytes
import Mathlib.Tactic.IntervalCases

/-!
# Hexadecimal numbers as Python writes and reads them

`b'%08X' % n` and `int(s, 16)` on a byte string. What is written is read back as long as it keeps to
its eight digits; the first eight digits of a longer number read as a number smaller than it.
-/

namespace LineageA1000

namespace Bytes

/-! ### Writing -/

def hexDigit (d : Nat) : UInt8 := if d < 10 then UInt8.ofNat (48 + d) else UInt8.ofNat (55 + d)

/-- The last `k` hexadecimal digits of a number. -/
def hexFixed : Nat → Nat → Bytes
  | 0, _ => []
  | k + 1, n => hexFixed k (n / 16) ++ [hexDigit (n % 16)]

/-- How many digits `b'%08X' % n` has. -/
def hexWidth (n : Nat) : Nat := max 8 (n.log2 / 4 + 1)

/-- `b'%08X' % n`. -/
def fmt08X (n : Nat) : Bytes := hexFixed (hexWidth n) n

@[simp] theorem length_hexFixed (k n : Nat) : (hexFixed k n).length = k := by
  induction k generalizing n with
  | zero => rfl
  | succ k ih => rw [hexFixed, List.length_append, ih, List.length_singleton]

theorem hexFixed_add (m k n : Nat) :
    hexFixed (m + k) n = hexFixed m (n / 16 ^ k) ++ hexFixed k n := by
  induction k generalizing n with
  | zero => rw [pow_zero, Nat.div_one, Nat.add_zero, hexFixed, List.append_nil]
  | succ k ih =>
      rw [← Nat.add_assoc, hexFixed, ih, Nat.div_div_eq_div_mul, ← pow_succ', hexFixed,
        List.append_assoc]

@[simp] theorem length_fmt08X (n : Nat) : (fmt08X n).length = hexWidth n := length_hexFixed _ _

theorem lt_pow_hexWidth (n : Nat) : n < 16 ^ hexWidth n := by
  have hlog : n.log2 + 1 ≤ 4 * hexWidth n := by
    rw [hexWidth]
    omega
  calc n < 2 ^ (n.log2 + 1) := Nat.lt_log2_self
    _ ≤ 2 ^ (4 * hexWidth n) := Nat.pow_le_pow_right (by decide) hlog
    _ = 16 ^ hexWidth n := pow_mul 2 4 _

theorem hexWidth_eq_eight_iff {n : Nat} : hexWidth n = 8 ↔ n < 2 ^ 32 := by
  rcases Nat.eq_zero_or_pos n with rfl | hn
  · decide
  · rw [← Nat.log2_lt hn.ne', hexWidth]
    omega

theorem fmt08X_of_lt {n : Nat} (hn : n < 2 ^ 32) : fmt08X n = hexFixed 8 n := by
  rw [fmt08X, hexWidth_eq_eight_iff.2 hn]

theorem eight_le_hexWidth (n : Nat) : 8 ≤ hexWidth n := le_max_left ..

/-- The first eight digits that are written for any number. -/
theorem slice_fmt08X (n : Nat) : (fmt08X n).slice 0 8 = hexFixed 8 (n / 16 ^ (hexWidth n - 8)) := by
  have hwidth : hexWidth n = 8 + (hexWidth n - 8) := by
    have := eight_le_hexWidth n
    omega
  rw [fmt08X, hwidth, hexFixed_add, ← hwidth, slice_append_left _ _ (by rw [length_hexFixed])]
  have hslice := slice_zero_length (hexFixed 8 (n / 16 ^ (hexWidth n - 8)))
  rwa [length_hexFixed] at hslice

theorem leading_lt (n : Nat) : n / 16 ^ (hexWidth n - 8) < 2 ^ 32 := by
  have hwidth := eight_le_hexWidth n
  have hlt := lt_pow_hexWidth n
  have hpow : 16 ^ hexWidth n = 16 ^ (hexWidth n - 8) * 2 ^ 32 := by
    rw [show (2 : Nat) ^ 32 = 16 ^ 8 by decide, ← pow_add, Nat.sub_add_cancel hwidth]
  rw [hpow] at hlt
  exact Nat.div_lt_of_lt_mul hlt

/-- Cutting a number of nine digits or more to its first eight makes it much smaller. -/
theorem lt_of_le_leading {n : Nat} (hn : n ≤ n / 16 ^ (hexWidth n - 8) + 1) : n < 2 ^ 32 := by
  by_contra hlarge
  have hwidth : 9 ≤ hexWidth n := by
    have := eight_le_hexWidth n
    have := mt hexWidth_eq_eight_iff.1 hlarge
    omega
  have hpow : 16 ≤ 16 ^ (hexWidth n - 8) := Nat.le_self_pow (by omega) 16
  have hdiv : n / 16 ^ (hexWidth n - 8) ≤ n / 16 := Nat.div_le_div_left hpow (by decide)
  omega

/-! ### Reading -/

def isSpace (b : UInt8) : Bool := b = 0x20 || (0x09 ≤ b && b ≤ 0x0D)

def hexValue (b : UInt8) : Option Nat :=
  if 0x30 ≤ b ∧ b ≤ 0x39 then some (b.toNat - 0x30)
  else if 0x41 ≤ b ∧ b ≤ 0x46 then some (b.toNat - 0x37)
  else if 0x61 ≤ b ∧ b ≤ 0x66 then some (b.toNat - 0x57)
  else none

/-- The sign `int` accepts in front of the digits. -/
def takeSign : Bytes → Int × Bytes
  | [] => (1, [])
  | b :: bs => if b = 0x2B then (1, bs) else if b = 0x2D then (-1, bs) else (1, b :: bs)

/-- The `0x` that `int` accepts for base 16, with the one underscore allowed behind it. -/
def skipHexMark : Bytes → Bytes
  | b :: x :: bs =>
      if b = 0x30 ∧ (x = 0x78 ∨ x = 0x58) then
        match bs with
        | [] => []
        | u :: rest => if u = 0x5F then rest else u :: rest
      else b :: x :: bs
  | s => s

/-- A run of digits with single underscores between them, and what follows it. -/
def hexRun (acc : Nat) (underscore : Bool) : Bytes → Option (Nat × Bytes)
  | [] => if underscore then none else some (acc, [])
  | b :: bs =>
      match hexValue b with
      | some v => hexRun (acc * 16 + v) false bs
      | none =>
          if underscore then none
          else if b = 0x5F then hexRun acc true bs
          else some (acc, b :: bs)

/-- `int(s, 16)`; `none` is its `ValueError`. -/
def pyInt16 (s : Bytes) : Option Int :=
  let (sign, s) := takeSign (s.dropWhile isSpace)
  let s := skipHexMark s
  if (s.head?.bind hexValue).isNone then none
  else match hexRun 0 false s with
    | none => none
    | some (n, rest) => if (rest.dropWhile isSpace).isEmpty then some (sign * n) else none

theorem hexDigit_facts : ∀ d < 16, hexValue (hexDigit d) = some d ∧ isSpace (hexDigit d) = false ∧
    hexDigit d ≠ 0x2B ∧ hexDigit d ≠ 0x2D ∧ hexDigit d ≠ 0x78 ∧ hexDigit d ≠ 0x58 := by
  decide

theorem hexRun_hexFixed (k n acc : Nat) (rest : Bytes) :
    hexRun acc false (hexFixed k n ++ rest) = hexRun (acc * 16 ^ k + n % 16 ^ k) false rest := by
  induction k generalizing n acc rest with
  | zero => rw [hexFixed, List.nil_append, pow_zero, Nat.mul_one, Nat.mod_one, Nat.add_zero]
  | succ k ih =>
      have hdigit := (hexDigit_facts (n % 16) (Nat.mod_lt _ (by decide))).1
      rw [hexFixed, List.append_assoc, ih, List.singleton_append, hexRun, hdigit]
      have hmod : n % 16 ^ (k + 1) = n % 16 + 16 * (n / 16 % 16 ^ k) := by
        rw [pow_succ', Nat.mod_mul]
      have hvalue : (acc * 16 ^ k + n / 16 % 16 ^ k) * 16 + n % 16 =
          acc * 16 ^ (k + 1) + n % 16 ^ (k + 1) := by
        rw [hmod, pow_succ]
        ring
      dsimp only
      rw [hvalue]

/-- Eight written digits are read back. -/
theorem pyInt16_hexFixed {n : Nat} (hn : n < 2 ^ 32) : pyInt16 (hexFixed 8 n) = some (n : Int) := by
  obtain ⟨a, b, tl, hshape, ha, hb⟩ : ∃ a b tl, hexFixed 8 n = hexDigit a :: hexDigit b :: tl ∧
      a < 16 ∧ b < 16 := by
    refine ⟨n / 16 ^ 7 % 16, n / 16 ^ 6 % 16, hexFixed 6 n, ?_, Nat.mod_lt _ (by decide),
      Nat.mod_lt _ (by decide)⟩
    rw [hexFixed_add 2 6 n, hexFixed, hexFixed, hexFixed, Nat.div_div_eq_div_mul, ← pow_succ]
    rfl
  obtain ⟨hvalue, hspace, hplus, hminus, -, -⟩ := hexDigit_facts a ha
  obtain ⟨-, -, -, -, hx, hX⟩ := hexDigit_facts b hb
  have hrun := hexRun_hexFixed 8 n 0 []
  rw [List.append_nil, Nat.zero_mul, Nat.zero_add, Nat.mod_eq_of_lt (by omega), hshape] at hrun
  rw [hshape, pyInt16, List.dropWhile_cons_of_neg (by rw [hspace]; decide), takeSign, if_neg hplus,
    if_neg hminus]
  simp only [skipHexMark, hx, hX, or_self, and_false, if_false, List.head?_cons, Option.bind_some,
    hvalue, Option.isNone_some, Bool.false_eq_true, hrun, hexRun]
  rw [one_mul]
  rfl

end Bytes

end LineageA1000
