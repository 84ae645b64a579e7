import Mathlib.Data.List.Basic
import Mathlib.Data.List.Infix
import Mathlib.Data.List.Forall2

/-!
# Stripping the xperm rules

`_los17_sepolicy_xperm.py` drops the rules that a kernel of version 3.10 cannot load. It goes line
by line: a line that begins with a keyword is dropped, with every line behind it up to the first
that has a semicolon. What that does to a policy is measured against its tokens. The keywords are
reserved words, so a rule is a keyword and all that follows it up to its semicolon, and how the
other tokens form statements and macro calls is not asked. No token goes over the end of a line.
Texts are as `io.open` reads them, with every line end a newline.
-/

namespace LineageA1000.Sepolicy.Xperm

/-! ### The script -/

/-- The white space of `str.lstrip`. -/
def isSpace (c : Char) : Bool :=
  (0x09 ≤ c.toNat && c.toNat ≤ 0x0D) || (0x1C ≤ c.toNat && c.toNat ≤ 0x20) ||
    [0x85, 0xA0, 0x1680, 0x2028, 0x2029, 0x202F, 0x205F, 0x3000].contains c.toNat ||
    (0x2000 ≤ c.toNat && c.toNat ≤ 0x200A)

/-- `KEYS`. -/
def keys : List (List Char) :=
  ["allowxperm".toList, "neverallowxperm".toList, "auditallowxperm".toList,
    "dontauditxperm".toList]

/-- What `NOTE` says behind its `#`. -/
def noteText : List Char :=
  " A1000: правило xperm убрано — ядру 3.10 нужна policydb 28 без них".toList

/-- `NOTE`. -/
def note : List Char := '#' :: noteText ++ ['\n']

/-- `readlines`: every line keeps its newline, which only the last one can lack. -/
def readlines : List Char → List (List Char)
  | [] => []
  | c :: text =>
      if c = '\n' then [c] :: readlines text
      else
        match readlines text with
        | [] => [[c]]
        | line :: lines => (c :: line) :: lines

@[simp] theorem readlines_nil : readlines [] = [] := rfl

theorem readlines_cons (c : Char) (text : List Char) :
    readlines (c :: text) =
      if c = '\n' then [c] :: readlines text
      else
        match readlines text with
        | [] => [[c]]
        | line :: lines => (c :: line) :: lines := rfl

/-- `s.startswith(KEYS)`. -/
def startsWithKey (line : List Char) : Bool :=
  keys.any fun key => key.isPrefixOf (line.dropWhile isSpace)

/-- The loop over the lines. The flag is set while the inner loop looks for a semicolon. -/
def stripLines : Bool → List (List Char) → List (List Char)
  | _, [] => []
  | true, line :: lines => stripLines (!line.contains ';') lines
  | false, line :: lines =>
      if startsWithKey line then note :: stripLines (!line.contains ';') lines
      else line :: stripLines false lines

/-- `hit`. -/
def hits : Bool → List (List Char) → Nat
  | _, [] => 0
  | true, line :: lines => hits (!line.contains ';') lines
  | false, line :: lines =>
      if startsWithKey line then hits (!line.contains ';') lines + 1 else hits false lines

/-- The file after the script. -/
def strip (text : List Char) : List Char :=
  if hits false (readlines text) = 0 then text else (stripLines false (readlines text)).flatten

/-- Which lines the loop drops. -/
def dropped : Bool → List (List Char) → List Bool
  | _, [] => []
  | true, line :: lines => true :: dropped (!line.contains ';') lines
  | false, line :: lines =>
      if startsWithKey line then true :: dropped (!line.contains ';') lines
      else false :: dropped false lines

/-! ### The policy -/

inductive Token where
  | word (s : List Char)
  | mark (c : Char)
  | quoted (s : List Char)
  | comment (s : List Char)
  deriving DecidableEq

/-- The marks of the language; the last two are the quotes of macros. -/
def marks : List Char :=
  [';', '(', ')', '{', '}', ',', ':', '~', '*', Char.ofNat 0x60, Char.ofNat 0x27]

def wordOf : List Char → List Token
  | [] => []
  | c :: s => [.word (c :: s)]

/-- The rest of a line, behind the characters of a word or of a string left open. -/
def lexFrom : Bool → List Char → List Char → List Token
  | false, pending, [] => wordOf pending
  | true, pending, [] => [.quoted pending]
  | false, pending, c :: line =>
      if c = '#' then wordOf pending ++ [.comment (line.takeWhile (· ≠ '\n'))]
      else if c = '"' then wordOf pending ++ lexFrom true [] line
      else if isSpace c then wordOf pending ++ lexFrom false [] line
      else if marks.contains c then wordOf pending ++ .mark c :: lexFrom false [] line
      else lexFrom false (pending ++ [c]) line
  | true, pending, c :: line =>
      if c = '"' then .quoted pending :: lexFrom false [] line
      else lexFrom true (pending ++ [c]) line

theorem lexFrom_nil (pending : List Char) : lexFrom false pending [] = wordOf pending := rfl

theorem lexFrom_string_nil (pending : List Char) :
    lexFrom true pending [] = [.quoted pending] := rfl

theorem lexFrom_cons (pending : List Char) (c : Char) (line : List Char) :
    lexFrom false pending (c :: line) =
      if c = '#' then wordOf pending ++ [.comment (line.takeWhile (· ≠ '\n'))]
      else if c = '"' then wordOf pending ++ lexFrom true [] line
      else if isSpace c then wordOf pending ++ lexFrom false [] line
      else if marks.contains c then wordOf pending ++ .mark c :: lexFrom false [] line
      else lexFrom false (pending ++ [c]) line := rfl

theorem lexFrom_string_cons (pending : List Char) (c : Char) (line : List Char) :
    lexFrom true pending (c :: line) =
      if c = '"' then .quoted pending :: lexFrom false [] line
      else lexFrom true (pending ++ [c]) line := rfl

def lexLine (line : List Char) : List Token := lexFrom false [] line

def tokens (text : List Char) : List Token := (readlines text).flatMap lexLine

def Token.isKey : Token → Bool
  | .word s => keys.contains s
  | _ => false

/-- Whether a rule goes on behind a token. -/
def goesOn (inRule : Bool) (token : Token) : Bool :=
  if inRule then token != .mark ';' else token.isKey

def goesOnAfter (inRule : Bool) (line : List Token) : Bool := line.foldl goesOn inRule

/-- Which tokens are parts of rules. -/
def parts : Bool → List Token → List Bool
  | _, [] => []
  | inRule, token :: line => (inRule || token.isKey) :: parts (goesOn inRule token) line

def partsOfLines : Bool → List (List Char) → List (List Bool)
  | _, [] => []
  | inRule, line :: lines =>
      parts inRule (lexLine line) :: partsOfLines (goesOnAfter inRule (lexLine line)) lines

/-- The tokens with the rules removed. -/
def withoutRules : Bool → List Token → List Token
  | _, [] => []
  | inRule, token :: line =>
      if inRule || token.isKey then withoutRules (goesOn inRule token) line
      else token :: withoutRules false line

def withoutNotes (text : List Token) : List Token := text.filter (· ≠ .comment noteText)

/-- The script takes away the tokens of the rules and no others, what it writes reads as the policy
without its rules, and nothing is left to do. -/
structure StripsExactly (text : List Char) : Prop where
  removed : List.Forall₂ (fun drop flags => ∀ flag ∈ flags, flag = drop)
    (dropped false (readlines text)) (partsOfLines false (readlines text))
  parsed : withoutNotes (tokens (strip text)) = withoutNotes (withoutRules false (tokens text))
  stable : strip (strip text) = strip text

/-! ### The layout that it needs -/

/-- The first line with anything on it, if there is one, begins with a keyword. -/
def Resumes : List (List Char) → Prop
  | [] => True
  | line :: lines => startsWithKey line = true ∨ lexLine line = [] ∧ Resumes lines

/-- A line holds parts of rules alone or none. A line that begins with the letters of a keyword
begins with a part of a rule. Where a rule goes on behind a line that has a semicolon, what comes
next begins with a keyword. -/
def Layout : Bool → List (List Char) → Prop
  | _, [] => True
  | inRule, line :: lines =>
      (∀ flag ∈ parts inRule (lexLine line), some flag = (parts inRule (lexLine line)).head?) ∧
      (startsWithKey line = true → (parts inRule (lexLine line)).head? = some true) ∧
      (line.contains ';' = true → goesOnAfter inRule (lexLine line) = true → Resumes lines) ∧
      Layout (goesOnAfter inRule (lexLine line)) lines

/-! ### Lines -/

/-- What `readlines` returns: lines that end with their only newline, but for the last one. -/
def LinesOf : List (List Char) → Prop
  | [] => True
  | line :: lines =>
      ((∃ body, line = body ++ ['\n'] ∧ '\n' ∉ body) ∨ line ≠ [] ∧ '\n' ∉ line ∧ lines = []) ∧
        LinesOf lines

theorem readlines_line {body : List Char} (hbody : '\n' ∉ body) (text : List Char) :
    readlines (body ++ '\n' :: text) = (body ++ ['\n']) :: readlines text := by
  induction body with
  | nil => simp [readlines_cons]
  | cons c body ih =>
      obtain ⟨hc, hbody⟩ := not_or.mp (List.mem_cons.not.mp hbody)
      simp [readlines_cons, ih hbody, Ne.symm hc]

theorem readlines_last {line : List Char} (hne : line ≠ []) (hline : '\n' ∉ line) :
    readlines line = [line] := by
  induction line with
  | nil => exact absurd rfl hne
  | cons c line ih =>
      obtain ⟨hc, hline⟩ := not_or.mp (List.mem_cons.not.mp hline)
      by_cases hnil : line = []
      · simp [hnil, readlines_cons, Ne.symm hc]
      · simp [readlines_cons, ih hnil hline, Ne.symm hc]

theorem readlines_flatten {lines : List (List Char)} (h : LinesOf lines) :
    readlines lines.flatten = lines := by
  induction lines with
  | nil => rfl
  | cons line lines ih =>
      obtain ⟨⟨body, rfl, hbody⟩ | ⟨hne, hline, rfl⟩, hlines⟩ := h
      · rw [List.flatten_cons, List.append_assoc, List.singleton_append, readlines_line hbody,
          ih hlines]
      · rw [List.flatten_singleton, readlines_last hne hline]

theorem flatten_readlines (text : List Char) : (readlines text).flatten = text := by
  induction text with
  | nil => rfl
  | cons c text ih =>
      rw [readlines_cons]
      split
      · simp [ih]
      · split
        · rename_i heq
          rw [heq] at ih
          simp [← ih]
        · rename_i heq
          rw [heq] at ih
          simp [← ih]

theorem linesOf_readlines (text : List Char) : LinesOf (readlines text) := by
  induction text with
  | nil => trivial
  | cons c text ih =>
      rw [readlines_cons]
      split
      · rename_i hc
        exact ⟨.inl ⟨[], by simp [hc], by simp⟩, ih⟩
      · rename_i hc
        split
        · exact ⟨.inr ⟨by simp, by simpa using Ne.symm hc, rfl⟩, trivial⟩
        · rename_i line lines heq
          rw [heq] at ih
          obtain ⟨⟨body, rfl, hbody⟩ | ⟨hne, hline, rfl⟩, hlines⟩ := ih
          · refine ⟨.inl ⟨c :: body, rfl, ?_⟩, hlines⟩
            simp [hbody, Ne.symm hc]
          · refine ⟨.inr ⟨by simp, ?_, rfl⟩, trivial⟩
            simp [hline, Ne.symm hc]

/-- `noteText` as its characters, so that nothing has to decode the string. -/
theorem noteText_eq : noteText =
    [' ', 'A', '1', '0', '0', '0', ':', ' ', 'п', 'р', 'а', 'в', 'и', 'л', 'о', ' ', 'x', 'p', 'e',
      'r', 'm', ' ', 'у', 'б', 'р', 'а', 'н', 'о', ' ', '—', ' ', 'я', 'д', 'р', 'у', ' ', '3', '.',
      '1', '0', ' ', 'н', 'у', 'ж', 'н', 'а', ' ', 'p', 'o', 'l', 'i', 'c', 'y', 'd', 'b', ' ', '2',
      '8', ' ', 'б', 'е', 'з', ' ', 'н', 'и', 'х'] :=
  String.toList_ofList

theorem newline_not_mem_noteText : '\n' ∉ noteText := by
  rw [noteText_eq]
  decide

theorem newline_not_mem_note : '\n' ∉ '#' :: noteText := by
  rw [List.mem_cons, not_or]
  exact ⟨by decide, newline_not_mem_noteText⟩

theorem linesOf_stripLines {lines : List (List Char)} (h : LinesOf lines) (skipping : Bool) :
    LinesOf (stripLines skipping lines) := by
  induction lines generalizing skipping with
  | nil => cases skipping <;> trivial
  | cons line lines ih =>
      cases skipping with
      | true => exact ih h.2 _
      | false =>
          rw [stripLines]
          split
          · exact ⟨.inl ⟨_, rfl, newline_not_mem_note⟩, ih h.2 _⟩
          · refine ⟨h.1.imp id fun hlast => ⟨hlast.1, hlast.2.1, ?_⟩, ih h.2 _⟩
            rw [hlast.2.2]
            rfl

/-! ### The script -/

/-- A character of a word. -/
def isPlain (c : Char) : Bool := c ≠ '#' && c ≠ '"' && !isSpace c && !marks.contains c

theorem isPlain_of_mem_keys : ∀ key ∈ keys, ∃ c s, key = c :: s ∧ isPlain c = true := by
  simp only [keys, List.forall_mem_cons]
  refine ⟨⟨'a', _, rfl, ?_⟩, ⟨'n', _, rfl, ?_⟩, ⟨'a', _, rfl, ?_⟩, ⟨'d', _, rfl, ?_⟩, nofun⟩
  all_goals decide

/-- A line that is a comment does not begin with a keyword, whatever it says. -/
theorem not_startsWithKey_comment (text : List Char) : startsWithKey ('#' :: text) = false := by
  have hdrop : ('#' :: text).dropWhile isSpace = '#' :: text := rfl
  rw [startsWithKey, hdrop, List.any_eq_false]
  intro key hkey hprefix
  obtain ⟨c, s, rfl, hplain⟩ := isPlain_of_mem_keys key hkey
  obtain ⟨rfl, -⟩ := List.cons_prefix_cons.mp (List.isPrefixOf_iff_prefix.mp hprefix)
  exact absurd hplain (by decide)

theorem not_startsWithKey_note : startsWithKey note = false := by
  rw [note, List.cons_append]
  exact not_startsWithKey_comment _

theorem stripLines_of_hits {lines : List (List Char)} (h : hits false lines = 0) :
    stripLines false lines = lines := by
  induction lines with
  | nil => rfl
  | cons line lines ih =>
      simp only [hits, stripLines] at h ⊢
      split at h
      · exact absurd h (Nat.succ_ne_zero _)
      · rename_i hkey
        simp [hkey, ih h]

/-- Nothing is written where nothing was hit, which is what would have been written. -/
theorem strip_eq (text : List Char) : strip text = (stripLines false (readlines text)).flatten := by
  rw [strip]
  split
  · rename_i hhits
    rw [stripLines_of_hits hhits, flatten_readlines]
  · rfl

theorem readlines_strip (text : List Char) :
    readlines (strip text) = stripLines false (readlines text) := by
  rw [strip_eq]
  exact readlines_flatten (linesOf_stripLines (linesOf_readlines text) false)

/-- No line of the result begins with a keyword. -/
theorem hits_stripLines (skipping : Bool) (lines : List (List Char)) :
    hits false (stripLines skipping lines) = 0 := by
  induction lines generalizing skipping with
  | nil => cases skipping <;> rfl
  | cons line lines ih =>
      cases skipping with
      | true => exact ih _
      | false =>
          rw [stripLines]
          split
          · simp [hits, not_startsWithKey_note, ih]
          · rename_i hkey
            simp [hits, hkey, ih]

theorem strip_strip (text : List Char) : strip (strip text) = strip text := by
  rw [strip, if_pos]
  rw [readlines_strip]
  exact hits_stripLines false _

/-! ### Tokens of a line -/

theorem wordOf_of_ne_nil {s : List Char} (h : s ≠ []) : wordOf s = [.word s] := by
  obtain ⟨c, s, rfl⟩ := List.exists_cons_of_ne_nil h
  rfl

theorem not_mark_mem_wordOf (c : Char) (s : List Char) : .mark c ∉ wordOf s := by
  cases s <;> simp [wordOf]

/-- A mark is a character of the line. -/
theorem mem_of_mark_mem {c : Char} {inString : Bool} {pending line : List Char}
    (h : .mark c ∈ lexFrom inString pending line) : c ∈ line := by
  induction line generalizing inString pending with
  | nil =>
      cases inString with
      | false => exact absurd h (not_mark_mem_wordOf c pending)
      | true => simp [lexFrom_string_nil] at h
  | cons d line ih =>
      cases inString with
      | false =>
          simp only [lexFrom_cons] at h
          split_ifs at h
          · simp [not_mark_mem_wordOf] at h
          · exact .tail _ (ih ((List.mem_append.mp h).resolve_left (not_mark_mem_wordOf c _)))
          · exact .tail _ (ih ((List.mem_append.mp h).resolve_left (not_mark_mem_wordOf c _)))
          · have hrest := (List.mem_append.mp h).resolve_left (not_mark_mem_wordOf c _)
            obtain heq | hrest := List.mem_cons.mp hrest
            · rw [Token.mark.inj heq]
              exact List.mem_cons_self
            · exact .tail _ (ih hrest)
          · exact .tail _ (ih h)
      | true =>
          simp only [lexFrom_string_cons] at h
          split_ifs at h
          · simp only [List.mem_cons, reduceCtorEq, false_or] at h
            exact .tail _ (ih h)
          · exact .tail _ (ih h)

/-- What is pending comes first. -/
theorem lexFrom_pending {pending : List Char} (h : pending ≠ []) (line : List Char) :
    ∃ s rest, lexFrom false pending line = .word (pending ++ s) :: rest ∧ s <+: line := by
  induction line generalizing pending with
  | nil => exact ⟨[], [], by simp [lexFrom_nil, wordOf_of_ne_nil h], List.prefix_rfl⟩
  | cons c line ih =>
      simp only [lexFrom_cons, wordOf_of_ne_nil h]
      split_ifs
      · exact ⟨[], [_], by simp; rfl, List.nil_prefix⟩
      · exact ⟨[], lexFrom true [] line, by simp, List.nil_prefix⟩
      · exact ⟨[], lexFrom false [] line, by simp, List.nil_prefix⟩
      · exact ⟨[], .mark c :: lexFrom false [] line, by simp, List.nil_prefix⟩
      · have hne : pending ++ [c] ≠ [] := by simp
        obtain ⟨s, rest, heq, hs⟩ := ih hne
        refine ⟨c :: s, rest, by simpa using heq, ?_⟩
        exact List.cons_prefix_cons.mpr ⟨rfl, hs⟩

theorem lexFrom_quoted (pending line : List Char) :
    ∃ s rest, lexFrom true pending line = .quoted s :: rest := by
  induction line generalizing pending with
  | nil => exact ⟨pending, [], rfl⟩
  | cons c line ih =>
      rw [lexFrom_string_cons]
      split
      · exact ⟨pending, lexFrom false [] line, rfl⟩
      · exact ih _

theorem lexLine_plain {c : Char} (hc : isPlain c = true) (line : List Char) :
    ∃ s rest, lexLine (c :: line) = .word (c :: s) :: rest ∧ s <+: line := by
  simp only [isPlain, Bool.and_eq_true, decide_eq_true_eq, Bool.not_eq_true'] at hc
  obtain ⟨⟨⟨hhash, hquote⟩, hspace⟩, hmark⟩ := hc
  have hlex : lexLine (c :: line) = lexFrom false [c] line := by
    simp only [lexLine, lexFrom_cons, hhash, hquote, hspace, hmark, if_false, Bool.false_eq_true,
      List.nil_append]
  rw [hlex]
  exact lexFrom_pending (List.cons_ne_nil c []) line

theorem lexLine_not_plain {c : Char} (hc : isPlain c = false) (hspace : isSpace c = false)
    (line : List Char) : ∃ token rest, lexLine (c :: line) = token :: rest ∧
      token.isKey = false := by
  simp only [lexLine, lexFrom_cons, wordOf, List.nil_append, hspace, Bool.false_eq_true, if_false]
  split_ifs with hhash hquote hmark
  · exact ⟨_, [], rfl, rfl⟩
  · obtain ⟨s, rest, heq⟩ := lexFrom_quoted [] line
    exact ⟨.quoted s, rest, heq, rfl⟩
  · exact ⟨.mark c, _, rfl, rfl⟩
  · simp [isPlain, hhash, hquote, hspace] at hc
    exact absurd (List.contains_iff_mem.mpr hc) hmark

theorem lexLine_cons_of_isSpace {c : Char} (hc : isSpace c = true) (line : List Char) :
    lexLine (c :: line) = lexLine line := by
  have hhash : c ≠ '#' := by
    rintro rfl
    exact absurd hc (by decide)
  have hquote : c ≠ '"' := by
    rintro rfl
    exact absurd hc (by decide)
  simp [lexLine, lexFrom_cons, hhash, hquote, hc, wordOf]

theorem lexLine_dropWhile (line : List Char) : lexLine (line.dropWhile isSpace) = lexLine line := by
  induction line with
  | nil => rfl
  | cons c line ih =>
      rw [List.dropWhile_cons]
      split
      · rename_i hc
        rw [ih, lexLine_cons_of_isSpace hc]
      · rfl

/-- A line that begins with a keyword begins with a word. -/
theorem lexLine_of_startsWithKey {line : List Char} (h : startsWithKey line = true) :
    ∃ s rest, lexLine line = .word s :: rest := by
  obtain ⟨key, hkey, hprefix⟩ := List.any_eq_true.mp h
  obtain ⟨c, s, rfl, hplain⟩ := isPlain_of_mem_keys key hkey
  obtain ⟨t, ht⟩ := List.isPrefixOf_iff_prefix.mp hprefix
  obtain ⟨w, rest, heq, -⟩ := lexLine_plain hplain (s ++ t)
  refine ⟨c :: w, rest, ?_⟩
  rw [← lexLine_dropWhile, ← ht, List.cons_append, heq]

/-- A line whose first token is a keyword begins with it. -/
theorem startsWithKey_of_isKey {line : List Char} {token : Token} {rest : List Token}
    (h : lexLine line = token :: rest) (hkey : token.isKey = true) : startsWithKey line = true := by
  rw [← lexLine_dropWhile] at h
  rw [startsWithKey]
  have hhead : ∀ c ∈ (line.dropWhile isSpace).head?, isSpace c = false := by
    intro c hc
    have hnot := List.head?_dropWhile_not isSpace line
    rw [Option.mem_def.mp hc] at hnot
    exact hnot
  generalize line.dropWhile isSpace = line at h hhead
  cases line with
  | nil => exact nomatch h
  | cons c line =>
      have hspace : isSpace c = false := hhead c rfl
      cases hplain : isPlain c with
      | false =>
          obtain ⟨other, _, heq, hother⟩ := lexLine_not_plain hplain hspace line
          rw [← (List.cons.inj (h.symm.trans heq)).1, hkey] at hother
          exact nomatch hother
      | true =>
          obtain ⟨s, _, heq, hs⟩ := lexLine_plain hplain line
          rw [(List.cons.inj (h.symm.trans heq)).1] at hkey
          refine List.any_eq_true.mpr ⟨c :: s, List.contains_iff_mem.mp hkey, ?_⟩
          exact List.isPrefixOf_iff_prefix.mpr (List.cons_prefix_cons.mpr ⟨rfl, hs⟩)

/-! ### Parts of rules -/

theorem withoutRules_append (inRule : Bool) (xs ys : List Token) :
    withoutRules inRule (xs ++ ys) =
      withoutRules inRule xs ++ withoutRules (goesOnAfter inRule xs) ys := by
  induction xs generalizing inRule with
  | nil => rfl
  | cons token xs ih =>
      simp only [List.cons_append, withoutRules, goesOnAfter, List.foldl_cons]
      split
      · exact ih _
      · rename_i hpart
        obtain ⟨hrule, hkey⟩ := Bool.or_eq_false_iff.mp (Bool.not_eq_true _ ▸ hpart)
        simp only [hrule, goesOn, hkey, Bool.false_eq_true, if_false, List.cons_append]
        rw [ih]
        rfl

theorem goesOnAfter_of_not_mark {line : List Token} (hmark : .mark ';' ∉ line) :
    goesOnAfter true line = true := by
  induction line with
  | nil => rfl
  | cons token line ih =>
      obtain ⟨htoken, hline⟩ := not_or.mp (List.mem_cons.not.mp hmark)
      have hon : goesOn true token = true := by
        simpa [goesOn] using Ne.symm htoken
      rw [goesOnAfter, List.foldl_cons, hon]
      exact ih hline

/-- A line that begins with a part of a rule and does not end one leaves it open. -/
theorem goesOnAfter_of_head {inRule : Bool} {line : List Token}
    (hhead : (parts inRule line).head? = some true) (hmark : .mark ';' ∉ line) :
    goesOnAfter inRule line = true := by
  cases line with
  | nil => exact nomatch hhead
  | cons token line =>
      obtain ⟨htoken, hline⟩ := not_or.mp (List.mem_cons.not.mp hmark)
      have hpart : (inRule || token.isKey) = true := Option.some.inj hhead
      have hon : goesOn inRule token = true := by
        cases inRule with
        | false => simpa [goesOn] using hpart
        | true => simpa [goesOn] using Ne.symm htoken
      rw [goesOnAfter, List.foldl_cons, hon]
      exact goesOnAfter_of_not_mark hline

theorem goesOnAfter_of_no_parts {line : List Token}
    (h : ∀ flag ∈ parts false line, flag = false) : goesOnAfter false line = false := by
  induction line with
  | nil => rfl
  | cons token line ih =>
      obtain ⟨htoken, hline⟩ := List.forall_mem_cons.mp h
      have hon : goesOn false token = false := by
        simpa [goesOn] using htoken
      rw [hon] at hline
      rw [goesOnAfter, List.foldl_cons, hon]
      exact ih hline

theorem withoutRules_of_parts {inRule : Bool} {line : List Token}
    (h : ∀ flag ∈ parts inRule line, flag = true) : withoutRules inRule line = [] := by
  induction line generalizing inRule with
  | nil => rfl
  | cons token line ih =>
      obtain ⟨htoken, hline⟩ := List.forall_mem_cons.mp h
      rw [withoutRules, if_pos htoken]
      exact ih hline

theorem withoutRules_of_no_parts {inRule : Bool} {line : List Token}
    (h : ∀ flag ∈ parts inRule line, flag = false) : withoutRules inRule line = line := by
  induction line generalizing inRule with
  | nil => rfl
  | cons token line ih =>
      obtain ⟨htoken, hline⟩ := List.forall_mem_cons.mp h
      obtain ⟨hrule, hkey⟩ := Bool.or_eq_false_iff.mp htoken
      rw [withoutRules, if_neg (by simp [htoken]), ih]
      simpa [hrule, goesOn, hkey] using hline

/-! ### Lines and rules -/

theorem dropped_of_hit {skipping : Bool} {line : List Char}
    (h : skipping = true ∨ startsWithKey line = true) (lines : List (List Char)) :
    dropped skipping (line :: lines) = true :: dropped (!line.contains ';') lines := by
  cases skipping with
  | true => rfl
  | false => exact if_pos (h.resolve_left Bool.false_ne_true)

theorem dropped_of_not_hit {line : List Char} (h : ¬ startsWithKey line = true)
    (lines : List (List Char)) :
    dropped false (line :: lines) = false :: dropped false lines := if_neg h

theorem not_mark_mem {line : List Char} (h : line.contains ';' = false) :
    .mark ';' ∉ lexLine line := by
  intro hmark
  have hmem : line.contains ';' = true := List.contains_iff_mem.mpr (mem_of_mark_mem hmark)
  rw [h] at hmem
  exact nomatch hmem

theorem uniform_iff {flags : List Bool} {first : Bool} (h : ∀ flag ∈ flags.head?, flag = first) :
    (∀ flag ∈ flags, some flag = flags.head?) ↔ ∀ flag ∈ flags, flag = first := by
  cases flags with
  | nil => simp
  | cons flag flags =>
      have hflag : flag = first := h flag rfl
      simp [hflag]

/-- A line that is dropped leaves a rule open for as long as the loop looks for a semicolon. -/
theorem goesOnAfter_of_hit {skipping inRule : Bool} {line : List Char}
    (hskip : skipping = true → inRule = true)
    (hhit : skipping = true ∨ startsWithKey line = true)
    (hfirst : startsWithKey line = true → (parts inRule (lexLine line)).head? = some true)
    (hsemi : (!line.contains ';') = true) : goesOnAfter inRule (lexLine line) = true := by
  have hmark : .mark ';' ∉ lexLine line := not_mark_mem (by simpa using hsemi)
  cases hhit with
  | inl hskipping =>
      rw [hskip hskipping]
      exact goesOnAfter_of_not_mark hmark
  | inr hkey => exact goesOnAfter_of_head (hfirst hkey) hmark

theorem head_parts_of_inRule (line : List Token) :
    ∀ flag ∈ (parts true line).head?, flag = true := by
  intro flag hflag
  cases line with
  | nil => exact nomatch hflag
  | cons token line => exact (Option.some.inj hflag).symm

/-- Outside of rules a line that is kept begins with another token than a keyword. -/
theorem head_parts_of_not_hit {line : List Char} (h : ¬ startsWithKey line = true) :
    ∀ flag ∈ (parts false (lexLine line)).head?, flag = false := by
  intro flag hflag
  cases hline : lexLine line with
  | nil => simp [hline, parts] at hflag
  | cons token rest =>
      rw [hline] at hflag
      obtain rfl := Option.some.inj hflag
      exact Bool.eq_false_iff.mpr fun hkey => h (startsWithKey_of_isKey hline hkey)

theorem goesOnAfter_of_uniform {line : List Char} (h : ¬ startsWithKey line = true)
    (huniform : ∀ flag ∈ parts false (lexLine line),
      some flag = (parts false (lexLine line)).head?) :
    goesOnAfter false (lexLine line) = false :=
  goesOnAfter_of_no_parts ((uniform_iff (head_parts_of_not_hit h)).mp huniform)

/-- Of a line that is dropped all has to be part of rules, and the layout says no more. -/
theorem parts_of_hit_iff {skipping inRule : Bool} {line : List Char}
    (hskip : skipping = true → inRule = true)
    (hhit : skipping = true ∨ startsWithKey line = true) :
    (∀ flag ∈ parts inRule (lexLine line), flag = true) ↔
      (∀ flag ∈ parts inRule (lexLine line), some flag = (parts inRule (lexLine line)).head?) ∧
        (startsWithKey line = true → (parts inRule (lexLine line)).head? = some true) := by
  constructor
  · intro hall
    constructor
    · exact (uniform_iff fun flag hflag => hall flag (List.mem_of_mem_head? hflag)).mpr hall
    · intro hkey
      obtain ⟨s, rest, heq⟩ := lexLine_of_startsWithKey hkey
      rw [heq] at hall ⊢
      exact congrArg some (hall _ List.mem_cons_self)
  · intro ⟨huniform, hfirst⟩
    apply (uniform_iff _).mp huniform
    intro flag hflag
    cases hhit with
    | inl hskipping =>
        rw [hskip hskipping] at hflag
        exact head_parts_of_inRule _ flag hflag
    | inr hkey =>
        rw [hfirst hkey] at hflag
        exact (Option.some.inj hflag).symm

theorem no_parts_in_rule_iff (line : List Token) :
    (∀ flag ∈ parts true line, flag = false) ↔ line = [] := by
  constructor
  · intro hall
    cases line with
    | nil => rfl
    | cons token line => exact nomatch hall true List.mem_cons_self
  · rintro rfl
    exact nofun

/-- The lines that go are those of the rules just where the layout lets the lines tell them. The
loop looks for a semicolon only inside a rule; where it does not, an open rule has to be taken up
by a keyword. -/
theorem removed_iff (lines : List (List Char)) {skipping inRule : Bool}
    (hskip : skipping = true → inRule = true) :
    List.Forall₂ (fun drop flags => ∀ flag ∈ flags, flag = drop)
        (dropped skipping lines) (partsOfLines inRule lines) ↔
      Layout inRule lines ∧ (skipping = false → inRule = true → Resumes lines) := by
  induction lines generalizing skipping inRule with
  | nil => cases skipping <;> simp [dropped, partsOfLines, Layout, Resumes]
  | cons line lines ih =>
      rw [partsOfLines, Layout]
      by_cases hhit : skipping = true ∨ startsWithKey line = true
      · rw [dropped_of_hit hhit, List.forall₂_cons, parts_of_hit_iff hskip hhit]
        constructor
        · intro ⟨⟨huniform, hfirst⟩, hrest⟩
          obtain ⟨hlayout, hresume⟩ := (ih (goesOnAfter_of_hit hskip hhit hfirst)).mp hrest
          refine ⟨⟨huniform, hfirst, ?_, hlayout⟩, ?_⟩
          · intro hsemi
            exact hresume (by simpa using hsemi)
          · intro hkept _
            exact .inl (hhit.resolve_left (by simp [hkept]))
        · intro ⟨⟨huniform, hfirst, hresume, hlayout⟩, _⟩
          refine ⟨⟨huniform, hfirst⟩, ?_⟩
          apply (ih (goesOnAfter_of_hit hskip hhit hfirst)).mpr
          refine ⟨hlayout, fun hsemi => hresume ?_⟩
          simpa using hsemi
      · obtain ⟨hkept, hkey⟩ := not_or.mp hhit
        obtain rfl : skipping = false := by simpa using hkept
        have hkeep {goes : Bool} : false = true → goes = true :=
          fun h => absurd h Bool.false_ne_true
        rw [dropped_of_not_hit hkey, List.forall₂_cons]
        cases inRule with
        | false =>
            rw [← uniform_iff (head_parts_of_not_hit hkey)]
            constructor
            · intro ⟨huniform, hrest⟩
              have hclosed := goesOnAfter_of_uniform hkey huniform
              obtain ⟨hlayout, -⟩ := (ih hkeep).mp hrest
              refine ⟨⟨huniform, fun hhit => absurd hhit hkey, ?_, hlayout⟩, nofun⟩
              exact fun _ hopen => absurd hopen (by simp [hclosed])
            · intro ⟨⟨huniform, _, _, hlayout⟩, _⟩
              have hclosed := goesOnAfter_of_uniform hkey huniform
              refine ⟨huniform, (ih hkeep).mpr ⟨hlayout, ?_⟩⟩
              exact fun _ hopen => absurd hopen (by simp [hclosed])
        | true =>
            rw [no_parts_in_rule_iff]
            constructor
            · intro ⟨hnil, hrest⟩
              rw [hnil] at hrest ⊢
              obtain ⟨hlayout, hresume⟩ := (ih hkeep).mp hrest
              have hresumes : Resumes lines := hresume rfl rfl
              refine ⟨⟨nofun, fun hhit => absurd hhit hkey, fun _ _ => hresumes, hlayout⟩, ?_⟩
              exact fun _ _ => .inr ⟨hnil, hresumes⟩
            · intro ⟨⟨_, _, _, hlayout⟩, hresumes⟩
              obtain ⟨hnil, hresumes⟩ := (hresumes rfl rfl).resolve_left hkey
              rw [hnil] at hlayout ⊢
              exact ⟨rfl, (ih hkeep).mpr ⟨hlayout, fun _ _ => hresumes⟩⟩

/-! ### What is written -/

theorem lexLine_comment {text : List Char} (htext : '\n' ∉ text) :
    lexLine ('#' :: text ++ ['\n']) = [.comment text] := by
  have htake : (text ++ ['\n']).takeWhile (· ≠ '\n') = text := by
    rw [List.takeWhile_append_of_pos, List.takeWhile_cons_of_neg (by simp), List.append_nil]
    intro c hc
    exact decide_eq_true (ne_of_mem_of_not_mem hc htext)
  simp only [lexLine, List.cons_append, lexFrom_cons, if_true, wordOf, List.nil_append, htake]

theorem lexLine_note : lexLine note = [.comment noteText] :=
  lexLine_comment newline_not_mem_noteText

theorem withoutNotes_append (xs ys : List Token) :
    withoutNotes (xs ++ ys) = withoutNotes xs ++ withoutNotes ys := List.filter_append ..

theorem withoutNotes_note : withoutNotes (lexLine note) = [] := by
  simp [lexLine_note, withoutNotes]

/-- Where the lines that go are those of the rules, the others read as the policy without them. -/
theorem parsed_of_removed (lines : List (List Char)) {skipping inRule : Bool}
    (h : List.Forall₂ (fun drop flags => ∀ flag ∈ flags, flag = drop)
      (dropped skipping lines) (partsOfLines inRule lines)) :
    withoutNotes ((stripLines skipping lines).flatMap lexLine) =
      withoutNotes (withoutRules inRule (lines.flatMap lexLine)) := by
  induction lines generalizing skipping inRule with
  | nil => cases skipping <;> rfl
  | cons line lines ih =>
      rw [List.flatMap_cons, withoutRules_append, withoutNotes_append]
      rw [partsOfLines] at h
      by_cases hhit : skipping = true ∨ startsWithKey line = true
      · rw [dropped_of_hit hhit, List.forall₂_cons] at h
        rw [withoutRules_of_parts h.1, ← ih h.2]
        cases skipping with
        | true => rfl
        | false =>
            rw [stripLines, if_pos (hhit.resolve_left Bool.false_ne_true), List.flatMap_cons,
              withoutNotes_append, withoutNotes_note]
            rfl
      · obtain ⟨hkept, hkey⟩ := not_or.mp hhit
        obtain rfl : skipping = false := by simpa using hkept
        rw [dropped_of_not_hit hkey, List.forall₂_cons] at h
        rw [withoutRules_of_no_parts h.1, ← ih h.2, stripLines, if_neg hkey, List.flatMap_cons,
          withoutNotes_append]

/-! ### The result -/

/-- The script strips exactly the rules where the layout of the text lets the lines tell them. -/
theorem stripsExactly_iff (text : List Char) :
    StripsExactly text ↔ Layout false (readlines text) := by
  have hremoved : List.Forall₂ _ (dropped false (readlines text)) (partsOfLines false _) ↔ _ :=
    removed_iff (readlines text) id
  constructor
  · intro h
    exact (hremoved.mp h.removed).1
  · intro h
    have hlines := hremoved.mpr ⟨h, nofun⟩
    refine ⟨hlines, ?_, strip_strip text⟩
    rw [tokens, readlines_strip, parsed_of_removed _ hlines]
    rfl

/-- A rule with another one behind it on its line. -/
def sharedLine : List Char := "allowxperm a b:c ioctl 1; allow a b:c read;
".toList

/-- The rule behind the first is lost. -/
theorem not_stripsExactly_sharedLine : ¬ ∀ text : List Char, StripsExactly text := by
  intro hall
  have hread : readlines sharedLine = [sharedLine] := by decide
  have hkey : startsWithKey sharedLine = true := by decide
  have hgone : withoutNotes (tokens (strip sharedLine)) = [] := by
    rw [tokens, readlines_strip, hread, stripLines, if_pos hkey, stripLines]
    rw [List.flatMap_singleton, withoutNotes_note]
  have hkept : withoutNotes (withoutRules false (tokens sharedLine)) ≠ [] := by decide
  exact hkept ((hall sharedLine).parsed.symm.trans hgone)

end LineageA1000.Sepolicy.Xperm
