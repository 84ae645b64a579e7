import LineageA1000.Lib.Hex
import Mathlib.Data.List.DropRight
import Mathlib.Data.List.TakeWhile

/-!
# Reading text in C

`fgets` into a buffer and `sscanf` with `%Ns` fields, and the words of a text. Where every line fits
its buffer and every field its width, the two read the words of each line; the lemmas say so, and
that a line is read independently of the lines around it even where it does not fit.
-/

namespace LineageA1000

namespace Bytes

/-- `'\n'`. -/
abbrev newline : UInt8 := 0x0A

/-- One `fgets` that stores at most `n` characters: the text up to and including the newline, or the
first `n` characters, and what is left of the stream. -/
def fgets : Nat → Bytes → Bytes × Bytes
  | 0, bs => ([], bs)
  | _ + 1, [] => ([], [])
  | n + 1, b :: bs =>
      if b = newline then ([b], bs)
      else ((b :: (fgets n bs).1), (fgets n bs).2)

theorem fgets_cons (n : Nat) (b : UInt8) (bs : Bytes) :
    fgets (n + 1) (b :: bs) =
      if b = newline then ([b], bs) else ((b :: (fgets n bs).1), (fgets n bs).2) := rfl

/-- What repeated `fgets` calls return until the end of the stream. -/
def fgetsAll (n : Nat) : Nat → Bytes → List Bytes
  | 0, _ => []
  | fuel + 1, bs =>
      match fgets n bs with
      | ([], _) => []
      | (line, rest) => line :: fgetsAll n fuel rest

/-- The pieces in which a stream is read. -/
def pieces (n : Nat) (bs : Bytes) : List Bytes := fgetsAll n bs.length bs

/-- The lines of a text, without their newlines. -/
def lines (bs : Bytes) : List Bytes := bs.splitOn newline

/-- The words of a text. -/
def words (s : Bytes) : List Bytes := (s.splitOnP isSpace).filter fun w => w ≠ []

/-- `%Ns`: white space is skipped, then at most `width` other characters are stored. -/
def scanField (width : Nat) (s : Bytes) : Option (Bytes × Bytes) :=
  let s := s.dropWhile isSpace
  if s = [] then none
  else
    let field := (s.takeWhile fun b => !isSpace b).take width
    some (field, s.drop field.length)

/-- `sscanf` with one `%Ns` for each width; `none` where it returns fewer fields. -/
def scanFields : List Nat → Bytes → Option (List Bytes)
  | [], _ => some []
  | width :: widths, s =>
      match scanField width s with
      | none => none
      | some (field, rest) => (scanFields widths rest).map (field :: ·)

theorem scanFields_cons (width : Nat) (widths : List Nat) (s : Bytes) :
    scanFields (width :: widths) s =
      match scanField width s with
      | none => none
      | some (field, rest) => (scanFields widths rest).map (field :: ·) := rfl

/-- Every word is at most as long as the field it is read into. -/
def FitsWidths : List Nat → List Bytes → Prop
  | width :: widths, w :: ws => w.length ≤ width ∧ FitsWidths widths ws
  | _, _ => True

/-- `tolower`, in the C locale. -/
def toLower (b : UInt8) : UInt8 := if 0x41 ≤ b ∧ b ≤ 0x5A then b + 0x20 else b

/-- `strcasecmp(s, t) == 0`. -/
def CaseEq (s t : Bytes) : Prop := s.map toLower = t.map toLower

instance (s t : Bytes) : Decidable (CaseEq s t) := inferInstanceAs (Decidable (_ = _))

/-- `strtoul(s, NULL, 10)`, where an `unsigned long` has 32 bits. -/
def strtoul10 (s : Bytes) : Nat :=
  let (sign, s) := takeSign (s.dropWhile isSpace)
  let digits := s.takeWhile fun b => 0x30 ≤ b ∧ b ≤ 0x39
  let n := digits.foldl (fun acc b => acc * 10 + (b.toNat - 0x30)) 0
  if 2 ^ 32 ≤ n then 2 ^ 32 - 1 else if sign < 0 then (2 ^ 32 - n) % 2 ^ 32 else n

/-! ### Words -/

@[simp] theorem words_nil : words [] = [] := rfl

theorem words_append_cons (xs ys : Bytes) {b : UInt8} (hb : isSpace b = true) :
    words (xs ++ b :: ys) = words xs ++ words ys := by
  rw [words, List.splitOnP_append_cons xs ys hb, List.filter_append, words, words]

theorem words_cons_space {b : UInt8} (hb : isSpace b = true) (s : Bytes) :
    words (b :: s) = words s := by
  have happend := words_append_cons [] s hb
  rwa [List.nil_append, words_nil, List.nil_append] at happend

theorem words_of_forall {w : Bytes} (hne : w ≠ []) (hw : ∀ b ∈ w, isSpace b = false) :
    words w = [w] := by
  rw [words, List.splitOnP_eq_singleton hw, List.filter_cons_of_pos (by simpa using hne),
    List.filter_nil]

theorem words_dropWhile (s : Bytes) : words (s.dropWhile isSpace) = words s := by
  induction s with
  | nil => rfl
  | cons b s ih =>
      by_cases hb : isSpace b = true
      · rw [List.dropWhile_cons_of_pos hb, ih, words_cons_space hb]
      · rw [List.dropWhile_cons_of_neg hb]

/-- A text that does not begin with white space is its first word and what follows it. -/
theorem words_eq_cons {s : Bytes} (hne : s ≠ []) (hhead : s.dropWhile isSpace = s) :
    words s = s.takeWhile (fun b => !isSpace b) :: words (s.dropWhile fun b => !isSpace b) := by
  have hword : ∀ b ∈ s.takeWhile (fun b => !isSpace b), isSpace b = false := by
    intro b hb
    simpa using List.mem_takeWhile_imp hb
  have hwordNe : s.takeWhile (fun b => !isSpace b) ≠ [] := by
    cases s with
    | nil => exact absurd rfl hne
    | cons b s =>
        have hb : isSpace b = false := by
          by_contra hspace
          rw [Bool.not_eq_false] at hspace
          rw [List.dropWhile_cons_of_pos hspace] at hhead
          have hlen := congrArg List.length hhead
          have hle := (List.dropWhile_suffix (p := isSpace) (l := s)).length_le
          rw [List.length_cons] at hlen
          omega
        rw [List.takeWhile_cons_of_pos (by rw [hb]; rfl)]
        exact List.cons_ne_nil _ _
  have hsplit := List.takeWhile_append_dropWhile (p := fun b => !isSpace b) (l := s)
  cases hrest : s.dropWhile (fun b => !isSpace b) with
  | nil =>
      rw [hrest, List.append_nil] at hsplit
      rw [words_nil]
      rw [hsplit] at hword ⊢
      exact words_of_forall hne hword
  | cons b rest =>
      have hb : isSpace b = true := by
        have hhead' := List.head?_dropWhile_not (fun b => !isSpace b) s
        rw [hrest] at hhead'
        simpa using hhead'
      rw [hrest] at hsplit
      rw [words_cons_space hb]
      conv_lhs => rw [← hsplit, words_append_cons _ _ hb, words_of_forall hwordNe hword]
      rfl

/-- A text without words is white space. -/
theorem dropWhile_of_words_nil {s : Bytes} (hwords : words s = []) : s.dropWhile isSpace = [] := by
  by_contra hne
  rw [← words_dropWhile, words_eq_cons hne (List.dropWhile_idempotent ..)] at hwords
  cases hwords

/-- Behind its leading white space a text is its first word and what holds the others. -/
theorem dropWhile_of_words_cons {s w : Bytes} {ws : List Bytes} (hwords : words s = w :: ws) :
    s.dropWhile isSpace ≠ [] ∧ (s.dropWhile isSpace).takeWhile (fun b => !isSpace b) = w ∧
      words ((s.dropWhile isSpace).dropWhile fun b => !isSpace b) = ws := by
  have hne : s.dropWhile isSpace ≠ [] := by
    intro hnil
    rw [← words_dropWhile, hnil] at hwords
    cases hwords
  rw [← words_dropWhile, words_eq_cons hne (List.dropWhile_idempotent ..), List.cons.injEq]
    at hwords
  exact ⟨hne, hwords⟩

theorem length_le_of_words_eq_cons {s w : Bytes} {ws : List Bytes} (hwords : words s = w :: ws) :
    w.length ≤ s.length := by
  obtain ⟨-, hfirst, -⟩ := dropWhile_of_words_cons hwords
  rw [← hfirst]
  exact (List.takeWhile_prefix _).length_le.trans (List.dropWhile_suffix _).length_le

/-! ### Fields -/

theorem scanField_words {width : Nat} {s w : Bytes} {ws : List Bytes} (hwords : words s = w :: ws)
    (hwidth : w.length ≤ width) : ∃ rest, scanField width s = some (w, rest) ∧ words rest = ws := by
  obtain ⟨hne, hfirst, hrest⟩ := dropWhile_of_words_cons hwords
  rw [scanField]
  dsimp only
  rw [if_neg hne, hfirst, List.take_of_length_le hwidth]
  refine ⟨_, rfl, ?_⟩
  rw [← hrest]
  congr 1
  have hsplit := List.takeWhile_append_dropWhile (p := fun b => !isSpace b)
    (l := s.dropWhile isSpace)
  rw [hfirst] at hsplit
  conv_lhs => rw [← hsplit, List.drop_left]

theorem scanField_eq_none {width : Nat} {s : Bytes} (hwords : words s = []) :
    scanField width s = none := by
  rw [scanField]
  dsimp only
  rw [if_pos (dropWhile_of_words_nil hwords)]

/-- Fields that are wide enough hold the first words of the text. -/
theorem scanFields_eq_words {widths : List Nat} {s : Bytes} (hfits : FitsWidths widths (words s)) :
    scanFields widths s =
      if widths.length ≤ (words s).length then some ((words s).take widths.length) else none := by
  induction widths generalizing s with
  | nil => rfl
  | cons width widths ih =>
      cases hwords : words s with
      | nil =>
          rw [scanFields_cons, scanField_eq_none hwords]
          rfl
      | cons w ws =>
          rw [hwords] at hfits
          obtain ⟨rest, hscan, hrest⟩ := scanField_words hwords hfits.1
          have hfields := ih (s := rest) (by rw [hrest]; exact hfits.2)
          rw [scanFields_cons, hscan]
          dsimp only
          rw [hfields, hrest]
          simp only [List.length_cons, Nat.add_le_add_iff_right, List.take_succ_cons]
          split <;> rfl

theorem length_scanField {width : Nat} {s field rest : Bytes}
    (hscan : scanField width s = some (field, rest)) : field.length ≤ width := by
  rw [scanField] at hscan
  dsimp only at hscan
  split at hscan
  · cases hscan
  · cases hscan
    rw [List.length_take]
    exact min_le_left ..

theorem fitsWidths_of_scanFields {widths : List Nat} {s : Bytes} {fields : List Bytes}
    (hscan : scanFields widths s = some fields) : FitsWidths widths fields := by
  induction widths generalizing s fields with
  | nil =>
      cases hscan
      trivial
  | cons width widths ih =>
      rw [scanFields_cons] at hscan
      split at hscan
      · cases hscan
      · rename_i field rest hfield
        obtain ⟨fields', hrest, rfl⟩ := Option.map_eq_some_iff.1 hscan
        exact ⟨length_scanField hfield, ih hrest⟩

/-- A newline at the end is skipped as white space is. -/
theorem scanField_append_newline (width : Nat) (s : Bytes) :
    scanField width (s ++ [newline]) =
      (scanField width s).map fun r => (r.1, r.2 ++ [newline]) := by
  rw [scanField, scanField, List.dropWhile_append]
  generalize s.dropWhile isSpace = t
  cases t with
  | nil => rfl
  | cons b t =>
      have htake : (b :: t ++ [newline]).takeWhile (fun b => !isSpace b) =
          (b :: t).takeWhile fun b => !isSpace b := by
        rw [List.takeWhile_append]
        split
        · rename_i hall
          rw [List.takeWhile_cons_of_neg (by decide), List.append_nil]
          exact ((List.takeWhile_prefix _).eq_of_length hall).symm
        · rfl
      have hle : (((b :: t).takeWhile fun b => !isSpace b).take width).length ≤ (b :: t).length :=
        (List.length_take_le' _ _).trans (List.takeWhile_prefix _).length_le
      rw [if_neg (by simp), if_neg (by simp), if_neg (by simp), htake]
      dsimp only
      rw [List.drop_append_of_le_length hle]
      rfl

theorem scanFields_append_newline (widths : List Nat) (s : Bytes) :
    scanFields widths (s ++ [newline]) = scanFields widths s := by
  induction widths generalizing s with
  | nil => rfl
  | cons width widths ih =>
      rw [scanFields_cons, scanField_append_newline, scanFields_cons]
      cases scanField width s with
      | none => rfl
      | some r =>
          rw [Option.map_some]
          dsimp only
          rw [ih]

/-! ### Lines -/

theorem fgets_line {n : Nat} {l : Bytes} (hl : newline ∉ l) (hlen : l.length < n) (rest : Bytes) :
    fgets n (l ++ newline :: rest) = (l ++ [newline], rest) := by
  induction l generalizing n with
  | nil =>
      obtain ⟨m, rfl⟩ := Nat.exists_eq_succ_of_ne_zero (Nat.ne_of_gt hlen)
      rw [List.nil_append, fgets_cons, if_pos rfl]
      rfl
  | cons b l ih =>
      obtain ⟨m, rfl⟩ := Nat.exists_eq_succ_of_ne_zero (Nat.ne_of_gt (Nat.zero_lt_of_lt hlen))
      rw [List.mem_cons, not_or] at hl
      rw [List.length_cons, Nat.succ_eq_add_one, Nat.add_lt_add_iff_right] at hlen
      rw [List.cons_append, fgets_cons, if_neg (Ne.symm hl.1), ih hl.2 hlen]
      rfl

theorem fgets_full {n : Nat} {l : Bytes} (hl : newline ∉ l) (hlen : n ≤ l.length) (rest : Bytes) :
    fgets n (l ++ rest) = (l.take n, l.drop n ++ rest) := by
  induction n generalizing l with
  | zero => rfl
  | succ n ih =>
      cases l with
      | nil => cases hlen
      | cons b l =>
          rw [List.mem_cons, not_or] at hl
          rw [List.length_cons, Nat.add_le_add_iff_right] at hlen
          rw [List.cons_append, fgets_cons, if_neg (Ne.symm hl.1), ih hl.2 hlen]
          rfl

theorem fgets_last {n : Nat} {l : Bytes} (hl : newline ∉ l) (hlen : l.length ≤ n) :
    fgets n l = (l, []) := by
  induction l generalizing n with
  | nil => cases n <;> rfl
  | cons b l ih =>
      cases n with
      | zero => cases hlen
      | succ n =>
          rw [List.mem_cons, not_or] at hl
          rw [List.length_cons, Nat.add_le_add_iff_right] at hlen
          rw [fgets_cons, if_neg (Ne.symm hl.1), ih hl.2 hlen]

theorem fgets_nil (n : Nat) : fgets n [] = ([], []) := by
  cases n <;> rfl

theorem fgets_append (n : Nat) (bs : Bytes) : (fgets n bs).1 ++ (fgets n bs).2 = bs := by
  induction n generalizing bs with
  | zero => rfl
  | succ n ih =>
      cases bs with
      | nil => rfl
      | cons b bs =>
          rw [fgets_cons]
          split
          · rfl
          · rw [List.cons_append, ih]

theorem length_fgets (n : Nat) (bs : Bytes) :
    (fgets n bs).1.length + (fgets n bs).2.length = bs.length := by
  rw [← List.length_append, fgets_append]

theorem fgets_fst_ne_nil {n : Nat} (hn : 0 < n) {bs : Bytes} (hbs : bs ≠ []) :
    (fgets n bs).1 ≠ [] := by
  obtain ⟨m, rfl⟩ := Nat.exists_eq_succ_of_ne_zero (Nat.ne_of_gt hn)
  cases bs with
  | nil => exact absurd rfl hbs
  | cons b bs =>
      rw [Nat.succ_eq_add_one, fgets_cons]
      split <;> exact List.cons_ne_nil _ _

theorem fgetsAll_nil (n fuel : Nat) : fgetsAll n fuel [] = [] := by
  cases fuel with
  | zero => rfl
  | succ fuel => rw [fgetsAll, fgets_nil]

theorem fgetsAll_succ {n : Nat} (hn : 0 < n) (fuel : Nat) {bs : Bytes} (hbs : bs ≠ []) :
    fgetsAll n (fuel + 1) bs = (fgets n bs).1 :: fgetsAll n fuel (fgets n bs).2 := by
  have hne := fgets_fst_ne_nil hn hbs
  rw [fgetsAll]
  split
  · rename_i heq
    rw [heq] at hne
    exact absurd rfl hne
  · rename_i heq
    rw [heq]

/-- Fuel for every character is enough. -/
theorem fgetsAll_fuel {n : Nat} (hn : 0 < n) {fuel fuel' : Nat} {bs : Bytes}
    (hfuel : bs.length ≤ fuel) (hfuel' : bs.length ≤ fuel') :
    fgetsAll n fuel bs = fgetsAll n fuel' bs := by
  induction fuel generalizing fuel' bs with
  | zero =>
      rw [List.eq_nil_of_length_eq_zero (Nat.le_zero.1 hfuel), fgetsAll_nil, fgetsAll_nil]
  | succ fuel ih =>
      by_cases hbs : bs = []
      · rw [hbs, fgetsAll_nil, fgetsAll_nil]
      · have hpos := List.length_pos_iff.2 (fgets_fst_ne_nil hn hbs)
        have hlen := length_fgets n bs
        obtain ⟨m, rfl⟩ : ∃ m, fuel' = m + 1 := ⟨fuel' - 1, by omega⟩
        have hrest : fgetsAll n fuel (fgets n bs).2 = fgetsAll n m (fgets n bs).2 :=
          ih (by omega) (by omega)
        rw [fgetsAll_succ hn _ hbs, fgetsAll_succ hn _ hbs, hrest]

theorem pieces_eq_cons {n : Nat} (hn : 0 < n) {bs : Bytes} (hbs : bs ≠ []) :
    pieces n bs = (fgets n bs).1 :: pieces n (fgets n bs).2 := by
  have hpos := List.length_pos_iff.2 (fgets_fst_ne_nil hn hbs)
  have hlen := length_fgets n bs
  rw [pieces, fgetsAll_fuel hn le_rfl (Nat.le_succ _), fgetsAll_succ hn _ hbs, pieces,
    fgetsAll_fuel hn (by omega) le_rfl]

/-- The pieces are the whole stream. -/
theorem flatten_pieces {n : Nat} (hn : 0 < n) (bs : Bytes) : (pieces n bs).flatten = bs := by
  generalize hk : bs.length = k
  induction k using Nat.strong_induction_on generalizing bs with
  | _ k ih =>
      by_cases hbs : bs = []
      · rw [hbs]
        rfl
      · have hpos := List.length_pos_iff.2 (fgets_fst_ne_nil hn hbs)
        have hlen := length_fgets n bs
        rw [pieces_eq_cons hn hbs, List.flatten_cons, ih _ (by omega) _ rfl, fgets_append]

/-- A line that fits the buffer is one piece. -/
theorem pieces_line {n : Nat} (hn : 0 < n) {l : Bytes} (hl : newline ∉ l) (hlen : l.length ≤ n)
    (hne : l ≠ []) : pieces n l = [l] := by
  rw [pieces_eq_cons hn hne, fgets_last hl hlen]
  rfl

theorem lines_of_not_mem {l : Bytes} (hl : newline ∉ l) : lines l = [l] :=
  List.splitOn_eq_singleton hl

theorem lines_append (xs ys : Bytes) : lines (xs ++ newline :: ys) = lines xs ++ lines ys :=
  List.splitOn_append_cons_self xs ys

theorem lines_cons {l : Bytes} (hl : newline ∉ l) (rest : Bytes) :
    lines (l ++ newline :: rest) = l :: lines rest := by
  rw [lines_append, lines_of_not_mem hl, List.singleton_append]

theorem lines_ne_nil (s : Bytes) : lines s ≠ [] := List.splitOn_ne_nil newline s

/-- Induction on the lines of a text. -/
@[elab_as_elim]
theorem line_induction {motive : Bytes → Prop} (last : ∀ l, newline ∉ l → motive l)
    (line : ∀ l rest, newline ∉ l → motive rest → motive (l ++ newline :: rest)) (s : Bytes) :
    motive s := by
  generalize hk : s.length = k
  induction k using Nat.strong_induction_on generalizing s with
  | _ k ih =>
      by_cases hnl : newline ∈ s
      · obtain ⟨l, rest, rfl, hl⟩ := List.eq_append_cons_of_mem hnl
        rw [List.length_append, List.length_cons] at hk
        exact line l rest hl (ih rest.length (by omega) rest rfl)
      · exact last s hnl

theorem newline_not_mem_of_mem_lines {bs l : Bytes} (hmem : l ∈ lines bs) : newline ∉ l := by
  induction bs using line_induction with
  | last bs hbs =>
      rw [lines_of_not_mem hbs, List.mem_singleton] at hmem
      rwa [hmem]
  | line first rest hfirst ih =>
      rw [lines_cons hfirst, List.mem_cons] at hmem
      rcases hmem with rfl | hrest
      · exact hfirst
      · exact ih hrest

theorem length_le_of_mem_lines {bs l : Bytes} (hmem : l ∈ lines bs) : l.length ≤ bs.length := by
  induction bs using line_induction with
  | last bs hbs =>
      rw [lines_of_not_mem hbs, List.mem_singleton] at hmem
      rw [hmem]
  | line first rest hfirst ih =>
      rw [lines_cons hfirst, List.mem_cons] at hmem
      rw [List.length_append, List.length_cons]
      rcases hmem with rfl | hrest
      · omega
      · have hle := ih hrest
        omega

section Lines

variable {α : Type*} {n : Nat} (hn : 0 < n) (f : Bytes → Option α)
  (hnewline : ∀ s, f (s ++ [newline]) = f s) (hempty : f [] = none)

include hn hnewline hempty

/-- The pieces of a stream that begins with a line: first those of the line, whose last one also
holds the newline. -/
theorem filterMap_pieces_line {l : Bytes} (hl : newline ∉ l) (rest : Bytes) :
    (pieces n (l ++ newline :: rest)).filterMap f =
      (pieces n l).filterMap f ++ (pieces n rest).filterMap f := by
  generalize hk : l.length = k
  induction k using Nat.strong_induction_on generalizing l with
  | _ k ih =>
      have hne : l ++ newline :: rest ≠ [] := by simp
      rcases Nat.lt_or_ge l.length n with hlen | hlen
      · have hone : (pieces n l).filterMap f = [l].filterMap f := by
          by_cases hnil : l = []
          · rw [hnil, List.filterMap_cons_none hempty]
            rfl
          · rw [pieces_line hn hl hlen.le hnil]
        rw [pieces_eq_cons hn hne, fgets_line hl hlen, hone, ← List.filterMap_append]
        simp only [List.filterMap_cons, List.singleton_append, hnewline]
      · have hlne : l ≠ [] := List.length_pos_iff.1 (by omega)
        have hdrop : newline ∉ l.drop n := fun hmem => hl (List.mem_of_mem_drop hmem)
        have hfull := fgets_full hl hlen []
        rw [List.append_nil, List.append_nil] at hfull
        have hrest := ih (l.drop n).length (by rw [List.length_drop]; omega) hdrop rfl
        rw [pieces_eq_cons hn hne, fgets_full hl hlen, pieces_eq_cons hn hlne, hfull]
        simp only [List.filterMap_cons, hrest]
        cases f (l.take n) <;> rfl

/-- What is read from a stream is what is read from each of its lines. -/
theorem filterMap_pieces (bs : Bytes) :
    (pieces n bs).filterMap f = (lines bs).flatMap fun l => (pieces n l).filterMap f := by
  induction bs using line_induction with
  | last l hl => rw [lines_of_not_mem hl, List.flatMap_singleton]
  | line l rest hl ih =>
      rw [filterMap_pieces_line hn f hnewline hempty hl, lines_cons hl, List.flatMap_cons, ih]

end Lines

end Bytes

end LineageA1000
