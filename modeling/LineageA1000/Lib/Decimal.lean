import LineageA1000.Lib.CText
import Mathlib.Data.Nat.Digits.Lemmas

/-!
# Decimal numbers in C text

What `%u` prints and what `%d` and `%llu` read. A number is read from the first word of the text
alone: which one it is depends on nothing behind that word.
-/

namespace LineageA1000

namespace Bytes

def isDigit (b : UInt8) : Bool := 0x30 ≤ b && b ≤ 0x39

/-- What `%u` prints. -/
def decimal (n : Nat) : Bytes :=
  if n = 0 then [0x30] else (Nat.digits 10 n).reverse.map fun d => UInt8.ofNat (0x30 + d)

/-- The value of a run of digits. -/
def digitsValue (s : Bytes) : Nat := s.foldl (fun acc b => acc * 10 + (b.toNat - 0x30)) 0

/-- White space is skipped, then a sign and at least one digit are taken; `none` is a matching
failure. -/
def scanInt (s : Bytes) : Option (Int × Bytes) :=
  let (sign, s) := takeSign (s.dropWhile isSpace)
  let digits := s.takeWhile isDigit
  if digits = [] then none else some (sign * digitsValue digits, s.drop digits.length)

/-- `sscanf` with `k` numbers; `none` where it returns fewer. -/
def scanInts : Nat → Bytes → Option (List Int)
  | 0, _ => some []
  | k + 1, s =>
      match scanInt s with
      | none => none
      | some (n, rest) => (scanInts k rest).map (n :: ·)

theorem scanInts_succ (k : Nat) (s : Bytes) :
    scanInts (k + 1) s =
      match scanInt s with
      | none => none
      | some (n, rest) => (scanInts k rest).map (n :: ·) := rfl

/-- What `%d` stores: `strtoimax` stops at its bounds, and the rest is cut to an `int`. -/
def toInt (n : Int) : BitVec 32 := BitVec.ofInt 32 (max (-2 ^ 63) (min n (2 ^ 63 - 1)))

/-- What `%llu` stores: `strtoumax` stops at its bound and takes a minus sign modulo 2⁶⁴. -/
def toULongLong (n : Int) : BitVec 64 :=
  if 2 ^ 64 ≤ n.natAbs then BitVec.allOnes 64 else BitVec.ofInt 64 n

/-! ### Printing -/

theorem decimal_ne_nil (n : Nat) : decimal n ≠ [] := by
  unfold decimal
  split
  · exact List.cons_ne_nil _ _
  · rename_i hn
    rw [ne_eq, List.map_eq_nil_iff, List.reverse_eq_nil_iff, Nat.digits_eq_nil_iff_eq_zero]
    exact hn

theorem digit_facts : ∀ d < 10, isDigit (UInt8.ofNat (0x30 + d)) = true ∧
    (UInt8.ofNat (0x30 + d)).toNat - 0x30 = d := by
  decide

theorem isDigit_of_mem_decimal {n : Nat} {b : UInt8} (hb : b ∈ decimal n) : isDigit b = true := by
  unfold decimal at hb
  split at hb
  · rw [List.mem_singleton] at hb
    rw [hb]
    decide
  · obtain ⟨d, hd, rfl⟩ := List.mem_map.1 hb
    exact (digit_facts d (Nat.digits_lt_base (by decide) (List.mem_reverse.1 hd))).1

theorem digitsValue_decimal (n : Nat) : digitsValue (decimal n) = n := by
  unfold decimal
  split
  · rename_i hn
    rw [hn]
    decide
  · unfold digitsValue
    rw [List.foldl_map, List.foldl_reverse]
    have hvalue : ∀ ds : List Nat, (∀ d ∈ ds, d < 10) →
        ds.foldr (fun d acc => acc * 10 + ((UInt8.ofNat (0x30 + d)).toNat - 0x30)) 0 =
          Nat.ofDigits 10 ds := by
      intro ds hds
      induction ds with
      | nil => rfl
      | cons d ds ih =>
          rw [List.forall_mem_cons] at hds
          rw [List.foldr_cons, ih hds.2, (digit_facts d hds.1).2, Nat.ofDigits_cons]
          ring
    rw [hvalue _ fun d hd => Nat.digits_lt_base (by decide) hd, Nat.ofDigits_digits]

theorem length_decimal_le {n k : Nat} (hk : 0 < k) (hn : n < 10 ^ k) : (decimal n).length ≤ k := by
  unfold decimal
  split
  · exact hk
  · rw [List.length_map, List.length_reverse, Nat.digits_length_le_iff (by decide)]
    exact hn

theorem isSpace_of_isDigit {b : UInt8} (hb : isDigit b = true) : isSpace b = false := by
  unfold isDigit at hb
  unfold isSpace
  grind

theorem words_decimal (n : Nat) : words (decimal n) = [decimal n] :=
  words_of_forall (decimal_ne_nil n) fun _ hb => isSpace_of_isDigit (isDigit_of_mem_decimal hb)

/-! ### White space -/

/-- The text is empty or begins with white space. -/
def StartsBlank (u : Bytes) : Prop := ∀ b ∈ u.head?, isSpace b = true

theorem startsBlank_cons {b : UInt8} (hb : isSpace b = true) (u : Bytes) :
    StartsBlank (b :: u) := by
  intro c hc
  cases hc
  exact hb

theorem words_append {u : Bytes} (hu : StartsBlank u) (s : Bytes) :
    words (s ++ u) = words s ++ words u := by
  cases u with
  | nil => rw [List.append_nil, words_nil, List.append_nil]
  | cons b u => rw [words_append_cons s u (hu b rfl), words_cons_space (hu b rfl)]

/-- The blanks with which `%-Ns` fills a column. -/
def blanks (n : Nat) : Bytes := List.replicate n 0x20

theorem length_blanks (n : Nat) : (blanks n).length = n := List.length_replicate

theorem startsBlank_blanks (n : Nat) {u : Bytes} (hu : 0 < n ∨ StartsBlank u) :
    StartsBlank (blanks n ++ u) := by
  cases n with
  | zero => exact hu.resolve_left (lt_irrefl _)
  | succ n =>
      exact startsBlank_cons rfl _

theorem words_blanks_append (n : Nat) (s : Bytes) : words (blanks n ++ s) = words s := by
  induction n with
  | zero => rfl
  | succ n ih =>
      rw [blanks, List.replicate_succ, List.cons_append, words_cons_space rfl, ← ih, blanks]

/-! ### Reading -/

theorem takeSign_append {w : Bytes} (hw : w ≠ []) (u : Bytes) :
    takeSign (w ++ u) = ((takeSign w).1, (takeSign w).2 ++ u) := by
  cases w with
  | nil => exact absurd rfl hw
  | cons b w =>
      rw [List.cons_append, takeSign, takeSign]
      split_ifs <;> rfl

theorem takeSign_sublist (s : Bytes) : (takeSign s).2.Sublist s := by
  cases s with
  | nil => exact List.Sublist.refl _
  | cons b s =>
      rw [takeSign]
      split_ifs
      · exact List.sublist_cons_self ..
      · exact List.sublist_cons_self ..
      · exact List.Sublist.refl _

theorem scanInt_of_forall_not_isDigit {s : Bytes} (hs : ∀ b ∈ s, isDigit b = false) :
    scanInt s = none := by
  have hnone : (takeSign (s.dropWhile isSpace)).2.takeWhile isDigit = [] := by
    rw [List.takeWhile_eq_nil_iff]
    intro hlen hdigit
    have hmem := (takeSign_sublist _).subset (List.getElem_mem hlen)
    rw [List.get_eq_getElem, hs _ ((List.dropWhile_suffix _).subset hmem)] at hdigit
    cases hdigit
  rw [scanInt]
  dsimp only
  rw [if_pos hnone]

theorem scanInt_eq_none {s : Bytes} (hwords : words s = []) : scanInt s = none := by
  rw [scanInt, dropWhile_of_words_nil hwords]
  rfl

/-- The space behind a text ends the number in it. -/
theorem scanInt_append {s u : Bytes} (hs : s ≠ []) (hhead : s.dropWhile isSpace = s)
    (hu : StartsBlank u) : scanInt (s ++ u) = (scanInt s).map fun r => (r.1, r.2 ++ u) := by
  have hend : u.takeWhile isDigit = [] := by
    cases u with
    | nil => rfl
    | cons b u =>
        have hspace := hu b rfl
        rw [List.takeWhile_cons_of_neg]
        intro hdigit
        rw [isSpace_of_isDigit hdigit] at hspace
        cases hspace
  rw [scanInt, scanInt, List.dropWhile_append, hhead,
    if_neg (by rwa [List.isEmpty_iff]), takeSign_append hs]
  obtain ⟨sign, t⟩ := takeSign s
  have hdigits : (t ++ u).takeWhile isDigit = t.takeWhile isDigit := by
    rw [List.takeWhile_append, hend, List.append_nil]
    split
    · rename_i hall
      exact ((List.takeWhile_prefix _).eq_of_length hall).symm
    · rfl
  dsimp only
  rw [hdigits, List.drop_append_of_le_length (List.takeWhile_prefix _).length_le]
  split <;> rfl

theorem scanInt_dropWhile (s : Bytes) : scanInt (s.dropWhile isSpace) = scanInt s := by
  rw [scanInt, scanInt, List.dropWhile_idempotent]

theorem scanInt_append_newline (s : Bytes) :
    scanInt (s ++ [newline]) = (scanInt s).map fun r => (r.1, r.2 ++ [newline]) := by
  by_cases hs : s.dropWhile isSpace = []
  · have hboth : (s ++ [newline]).dropWhile isSpace = [] := by
      rw [List.dropWhile_append, hs]
      rfl
    rw [← scanInt_dropWhile, hboth, ← scanInt_dropWhile s, hs]
    rfl
  · have hboth : (s ++ [newline]).dropWhile isSpace = s.dropWhile isSpace ++ [newline] := by
      rw [List.dropWhile_append, if_neg (by rwa [List.isEmpty_iff])]
    rw [← scanInt_dropWhile, hboth, ← scanInt_dropWhile s]
    exact scanInt_append hs (List.dropWhile_idempotent ..) (startsBlank_cons rfl [])

theorem ne_nil_of_mem_words {s w : Bytes} (hw : w ∈ words s) : w ≠ [] := by
  rw [words, List.mem_filter] at hw
  simpa using hw.2

/-- A number is read from the first word. -/
theorem scanInt_words {s w : Bytes} {ws : List Bytes} (hwords : words s = w :: ws) :
    ∃ u, words u = ws ∧ scanInt s = (scanInt w).map fun r => (r.1, r.2 ++ u) := by
  have hw := ne_nil_of_mem_words (hwords ▸ List.mem_cons_self)
  obtain ⟨-, hfirst, hrest⟩ := dropWhile_of_words_cons hwords
  have hsplit := List.takeWhile_append_dropWhile (p := fun b => !isSpace b)
    (l := s.dropWhile isSpace)
  have hhead : w.dropWhile isSpace = w := by
    obtain ⟨b, t, rfl⟩ := List.exists_cons_of_ne_nil hw
    have hmem : b ∈ (s.dropWhile isSpace).takeWhile fun b => !isSpace b := by
      rw [hfirst]
      exact List.mem_cons_self
    have hb := List.mem_takeWhile_imp hmem
    rw [List.dropWhile_cons_of_neg]
    simpa using hb
  refine ⟨_, hrest, ?_⟩
  rw [← scanInt_dropWhile s]
  conv_lhs => rw [← hsplit, hfirst]
  apply scanInt_append hw hhead
  intro b hb
  have hfront := List.head?_dropWhile_not (fun b => !isSpace b) (s.dropWhile isSpace)
  rw [Option.mem_def] at hb
  rw [hb] at hfront
  simpa using hfront

theorem scanInt_decimal (n : Nat) : scanInt (decimal n) = some ((n : Int), []) := by
  have hdigits := fun b => isDigit_of_mem_decimal (n := n) (b := b)
  have hvalue := digitsValue_decimal n
  have hne := decimal_ne_nil n
  generalize decimal n = s at hdigits hvalue hne
  obtain ⟨b, t, rfl⟩ := List.exists_cons_of_ne_nil hne
  have hb := hdigits b List.mem_cons_self
  have hspace := isSpace_of_isDigit hb
  have hsign : b ≠ 0x2B ∧ b ≠ 0x2D := by
    constructor <;> rintro rfl <;> exact absurd hb (by decide)
  have hall : (b :: t).takeWhile isDigit = b :: t := List.takeWhile_eq_self_iff.2 hdigits
  rw [scanInt, List.dropWhile_cons_of_neg (by rw [hspace]; exact Bool.false_ne_true), takeSign,
    if_neg hsign.1, if_neg hsign.2]
  dsimp only
  rw [hall, if_neg hne, hvalue, one_mul, List.drop_length]

/-- A printed number is read back, and what follows is left for the next field. -/
theorem scanInt_words_decimal {s : Bytes} {n : Nat} {ws : List Bytes}
    (hwords : words s = decimal n :: ws) :
    ∃ u, scanInt s = some ((n : Int), u) ∧ words u = ws := by
  obtain ⟨u, hu, hscan⟩ := scanInt_words hwords
  refine ⟨u, ?_, hu⟩
  rw [hscan, scanInt_decimal]
  rfl

theorem scanInts_append_newline (k : Nat) (s : Bytes) :
    scanInts k (s ++ [newline]) = scanInts k s := by
  induction k generalizing s with
  | zero => rfl
  | succ k ih =>
      rw [scanInts_succ, scanInt_append_newline, scanInts_succ]
      cases scanInt s with
      | none => rfl
      | some r =>
          rw [Option.map_some]
          dsimp only
          rw [ih]

/-- Printed numbers are read back, no matter how they are spaced. -/
theorem scanInts_words_decimal {s : Bytes} {ns : List Nat} (hwords : words s = ns.map decimal) :
    scanInts ns.length s = some (ns.map Int.ofNat) := by
  induction ns generalizing s with
  | nil => rfl
  | cons n ns ih =>
      obtain ⟨u, hscan, hu⟩ := scanInt_words_decimal hwords
      rw [List.length_cons, scanInts_succ, hscan]
      dsimp only
      rw [ih hu]
      rfl

theorem scanInts_eq_none {s : Bytes} {ns : List Nat} {k : Nat} (hwords : words s = ns.map decimal)
    (hk : ns.length < k) : scanInts k s = none := by
  induction ns generalizing s k with
  | nil =>
      obtain ⟨m, rfl⟩ := Nat.exists_eq_succ_of_ne_zero (Nat.ne_of_gt hk)
      rw [Nat.succ_eq_add_one, scanInts_succ, scanInt_eq_none hwords]
  | cons n ns ih =>
      obtain ⟨m, rfl⟩ := Nat.exists_eq_succ_of_ne_zero (Nat.ne_of_gt (Nat.zero_lt_of_lt hk))
      obtain ⟨u, hscan, hu⟩ := scanInt_words_decimal hwords
      rw [List.length_cons, Nat.succ_eq_add_one, Nat.add_lt_add_iff_right] at hk
      rw [Nat.succ_eq_add_one, scanInts_succ, hscan]
      dsimp only
      rw [ih hu hk]
      rfl

/-- The first number read is one in the first word. -/
theorem scanInts_head {s w : Bytes} {ws : List Bytes} {k : Nat} {ns : List Int}
    (hwords : words s = w :: ws) (hscan : scanInts (k + 1) s = some ns) :
    ns.head? = (scanInt w).map Prod.fst := by
  obtain ⟨u, -, hfirst⟩ := scanInt_words hwords
  rw [scanInts_succ, hfirst] at hscan
  cases hw : scanInt w with
  | none =>
      rw [hw] at hscan
      cases hscan
  | some r =>
      rw [hw] at hscan
      obtain ⟨rest, -, rfl⟩ := Option.map_eq_some_iff.1 hscan
      rfl

theorem toInt_natCast {n : Nat} (hn : n < 2 ^ 31) : toInt n = BitVec.ofNat 32 n := by
  have hmin : min (n : Int) (2 ^ 63 - 1) = n := min_eq_left (by omega)
  have hmax : max (-2 ^ 63) (n : Int) = n := max_eq_right (by omega)
  rw [toInt, hmin, hmax, BitVec.ofInt_natCast]

theorem toULongLong_toNat (v : BitVec 64) : toULongLong (v.toNat : Int) = v := by
  have hlt := v.isLt
  rw [toULongLong, Int.natAbs_natCast, if_neg (by omega), BitVec.ofInt_natCast, BitVec.ofNat_toNat,
    BitVec.setWidth_eq]

end Bytes

end LineageA1000
