import LineageA1000.Lib.Decimal
import Mathlib.Data.BitVec
import Mathlib.Data.Fin.VecNotation
import Mathlib.Tactic.FinCases

/-!
# The Mali memory table

`mali_sum_for_pid` and `get_memory` of `memtrack_sc8830.c` read the table `gpu_memory`, whose format
the file's first comment gives: a row for each thread, with its name in the first column. The name
is whatever the thread called itself, and it is read as one word of the line. So the table is summed
right for the names that are one word, and for no others.
-/

namespace LineageA1000.Memtrack

open Bytes

/-! ### Reading the table -/

/-- A row as `sscanf` stores it; the name is not used. -/
structure MaliRow where
  rowPid : BitVec 32
  vals : Fin 5 → BitVec 64

/-- `sscanf(line, "%127s %d %llu %llu %llu %llu %llu", ..)`; `none` where it does not return 7. -/
def scanRow (line : Bytes) : Option MaliRow :=
  match scanField 127 line with
  | none => none
  | some (_, s) =>
      match scanInts 6 s with
      | some [rowPid, v0, v1, v2, v3, v4] =>
          some ⟨toInt rowPid, ![toULongLong v0, toULongLong v1, toULongLong v2, toULongLong v3,
            toULongLong v4]⟩
      | _ => none

/-- What the loop adds up: the lines, as `fgets` cuts them for 512 bytes, that hold a row. -/
def rowsRead (text : Bytes) : List MaliRow := (pieces 511 text).filterMap scanRow

/-- One turn of the loop. -/
def addLine (pid : BitVec 32) (column : Fin 5) (total : BitVec 64) (line : Bytes) : BitVec 64 :=
  match scanRow line with
  | none => total
  | some row => if row.rowPid = pid then total + row.vals column else total

/-- `file` is what `fopen` finds under `MALI_GPU_MEMORY`, or its `errno`. -/
def maliSumForPid (file : Except Int Bytes) (pid : BitVec 32) (column : Fin 5) :
    Except Int (BitVec 64) :=
  match file with
  | .error errno => .error (-errno)
  | .ok text => .ok ((pieces 511 text).foldl (addLine pid column) 0)

inductive MemtrackType where
  | other | gl | graphics | multimedia | camera
  deriving DecidableEq

inductive MemtrackFlag where
  | smapsUnaccounted | isPrivate | nonsecure
  deriving DecidableEq

structure MemtrackRecord where
  sizeInBytes : BitVec 64
  flags : List MemtrackFlag
  deriving DecidableEq

/-- `RECORDS_PER_TYPE`. -/
abbrev recordsPerType : Nat := 1

/-- What the request leaves in `*num_records` and in `records`, or the error it returns. -/
def getMemory (file : Except Int Bytes) (pid : BitVec 32) (type : MemtrackType) (numRecords : Nat) :
    Except Int (Nat × List MemtrackRecord) :=
  let counted (column : Fin 5) : Except Int (Nat × List MemtrackRecord) :=
    if numRecords = 0 then .ok (recordsPerType, [])
    else
      match maliSumForPid file pid column with
      | .error ret => .error ret
      | .ok size =>
          .ok (recordsPerType, [⟨size, [.smapsUnaccounted, .isPrivate, .nonsecure]⟩])
  match type with
  | .gl => counted 0
  | .graphics => counted 4
  | _ => .ok (0, [])

/-! ### The table -/

/-- What a thread may call itself: `TASK_COMM_LEN` is 16 with the byte that ends the name. -/
structure ThreadName where
  bytes : Bytes
  short : bytes.length ≤ 15
  ended : 0 ∉ bytes

structure Row where
  name : ThreadName
  pid : Nat
  pidRange : pid < 2 ^ 31
  vals : Fin 5 → BitVec 64

/-- The columns of the table: how far the lines are indented, the least space between two columns,
and their widths. -/
structure Layout where
  indent : Nat
  margin : Nat
  gap : Nat
  name : Nat
  pid : Nat
  maliMem : Nat
  maxMaliMem : Nat
  externalMem : Nat
  umpMem : Nat
  dmaMem : Nat
  bar : Nat
  separated : 0 < gap
  lineFits : indent + name + (pid + maliMem + maxMaliMem + externalMem + umpMem + dmaMem) +
    6 * gap ≤ 386
  marginFits : margin ≤ 386

/-- The columns as the comment of the source shows them. -/
def documented : Layout where
  indent := 2
  margin := 2
  gap := 1
  name := 15
  pid := 6
  maliMem := 10
  maxMaliMem := 14
  externalMem := 14
  umpMem := 9
  dmaMem := 0
  bar := 82
  separated := by decide
  lineFits := by decide
  marginFits := by decide

def Layout.widths (l : Layout) : List Nat :=
  [l.pid, l.maliMem, l.maxMaliMem, l.externalMem, l.umpMem, l.dmaMem]

/-- A text in a column of some width, with the gap in front of it. -/
def Layout.column (l : Layout) (width : Nat) (s : Bytes) : Bytes :=
  blanks l.gap ++ (s ++ blanks (width - s.length))

def Layout.columns (l : Layout) (widths : List Nat) (cells : List Bytes) : Bytes :=
  (List.zipWith l.column widths cells).flatten

/-- What stands behind the name in its line. -/
def Layout.behind (l : Layout) (name : Bytes) (cells : List Bytes) : Bytes :=
  blanks (l.name - name.length) ++ l.columns l.widths cells

def Layout.line (l : Layout) (name : Bytes) (cells : List Bytes) : Bytes :=
  blanks l.indent ++ name ++ l.behind name cells

def Layout.header (l : Layout) : Bytes :=
  l.line "Name (:bytes)".toUTF8.toList
    ["pid".toUTF8.toList, "mali_mem".toUTF8.toList, "max_mali_mem".toUTF8.toList,
      "external_mem".toUTF8.toList, "ump_mem".toUTF8.toList, "dma_mem".toUTF8.toList]

def Layout.separator (l : Layout) : Bytes := blanks l.margin ++ List.replicate l.bar 0x3D

def Row.numbers (r : Row) : List Nat := r.pid :: List.ofFn fun i => (r.vals i).toNat

def Layout.row (l : Layout) (r : Row) : Bytes := l.line r.name.bytes (r.numbers.map decimal)

/-- The line with a total. -/
def Layout.summary (l : Layout) (total : BitVec 64) : Bytes :=
  blanks l.margin ++ ("Mali mem usage: ".toUTF8.toList ++ decimal total.toNat)

/-- The whole file, each line with its newline. -/
def Layout.table (l : Layout) (rows : List Row) (totals : List (BitVec 64)) : Bytes :=
  (l.header :: l.separator :: (rows.map l.row ++ totals.map l.summary)).flatMap (· ++ [newline])

/-- The row as it is meant. -/
def Row.meant (r : Row) : MaliRow := ⟨BitVec.ofNat 32 r.pid, r.vals⟩

/-- The usage of a process: its rows' values in a column. -/
def usage (rows : List Row) (pid : BitVec 32) (column : Fin 5) : BitVec 64 :=
  ((rows.filter fun r => BitVec.ofNat 32 r.pid = pid).map fun r => r.vals column).sum

/-- Whatever the pids and sizes of the threads with these names, the rows read are those of the
table, and every sum is that of its rows. -/
def SumsWholeTable (l : Layout) (names : List ThreadName) : Prop :=
  ∀ rows totals, rows.map Row.name = names →
    rowsRead (l.table rows totals) = rows.map Row.meant ∧
      ∀ pid column, maliSumForPid (.ok (l.table rows totals)) pid column =
        .ok (usage rows pid column)

/-- Behind its last newline the name is one word, and no line in front of that is a row itself. -/
def ThreadName.Plain (name : ThreadName) : Prop :=
  (∃ w, words ((lines name.bytes).getLastD []) = [w]) ∧
    ∀ s ∈ (lines name.bytes).dropLast, scanRow s = none

/-! ### One line -/

theorem scanRow_append_newline (s : Bytes) : scanRow (s ++ [newline]) = scanRow s := by
  unfold scanRow
  rw [scanField_append_newline]
  cases scanField 127 s with
  | none => rfl
  | some r =>
      rw [Option.map_some]
      dsimp only
      rw [scanInts_append_newline]

theorem scanRow_blanks_append (n : Nat) (s : Bytes) : scanRow (blanks n ++ s) = scanRow s := by
  have hskip : (blanks n ++ s).dropWhile isSpace = s.dropWhile isSpace := by
    induction n with
    | zero => rfl
    | succ n ih =>
        rw [← ih, blanks, List.replicate_succ, List.cons_append,
          List.dropWhile_cons_of_pos (by decide), blanks]
  unfold scanRow scanField
  rw [hskip]

/-- A text without digits is no row. -/
theorem scanRow_of_forall_not_isDigit {s : Bytes} (hs : ∀ b ∈ s, isDigit b = false) :
    scanRow s = none := by
  unfold scanRow scanField
  dsimp only
  split
  · rfl
  · rename_i heq
    split at heq
    · cases heq
    · cases heq
      have hrest : ∀ b ∈ (s.dropWhile isSpace).drop
          (((s.dropWhile isSpace).takeWhile fun b => !isSpace b).take 127).length,
          isDigit b = false :=
        fun b hb => hs b ((List.dropWhile_suffix _).subset (List.mem_of_mem_drop hb))
      rw [scanInts, scanInt_of_forall_not_isDigit hrest]

/-- The pid of a row comes out of the second word of its line. -/
theorem rowPid_of_scanRow {s w w' : Bytes} {ws : List Bytes} (hwords : words s = w :: w' :: ws)
    (hw : w.length ≤ 127) {row : MaliRow} (hrow : scanRow s = some row) :
    ∃ n r, scanInt w' = some (n, r) ∧ row.rowPid = toInt n := by
  obtain ⟨rest, hscan, hrest⟩ := scanField_words hwords hw
  unfold scanRow at hrow
  rw [hscan] at hrow
  dsimp only at hrow
  split at hrow
  · rename_i rowPid _ _ _ _ _ hints
    have hhead := scanInts_head hrest hints
    rw [List.head?_cons, eq_comm, Option.map_eq_some_iff] at hhead
    obtain ⟨r, hr, hpid⟩ := hhead
    cases hrow
    refine ⟨r.1, r.2, hr, ?_⟩
    rw [hpid]
  · cases hrow

/-- A word and six printed numbers are a row. -/
theorem scanRow_words {s w : Bytes} (r : Row) (hwords : words s = w :: r.numbers.map decimal)
    (hw : w.length ≤ 127) : scanRow s = some r.meant := by
  obtain ⟨rest, hscan, hrest⟩ := scanField_words hwords hw
  have hints := scanInts_words_decimal hrest
  have hsix : r.numbers.length = 6 := rfl
  rw [hsix] at hints
  unfold scanRow
  rw [hscan]
  dsimp only
  rw [hints]
  show some (MaliRow.mk (toInt (r.pid : Int)) _) = _
  rw [toInt_natCast r.pidRange]
  unfold Row.meant
  congr 2
  funext i
  fin_cases i <;> exact toULongLong_toNat _

/-- Six printed numbers alone are none. -/
theorem scanRow_numbers {s : Bytes} (r : Row) (hwords : words s = r.numbers.map decimal) :
    scanRow s = none := by
  have hlen : (decimal r.pid).length ≤ 10 :=
    length_decimal_le (by decide) (by have := r.pidRange; omega)
  have hfits : (decimal r.pid).length ≤ 127 := by omega
  obtain ⟨rest, hscan, hrest⟩ := scanField_words hwords hfits
  have hfive : (List.ofFn fun i => (r.vals i).toNat).length < 6 := by
    rw [List.length_ofFn]
    decide
  have hints : scanInts 6 rest = none := scanInts_eq_none hrest hfive
  unfold scanRow
  rw [hscan]
  dsimp only
  rw [hints]

/-! ### Line by line -/

theorem rowsRead_append (xs ys : Bytes) :
    rowsRead (xs ++ newline :: ys) = rowsRead xs ++ rowsRead ys := by
  have hlines := filterMap_pieces (by decide : 0 < 511) scanRow scanRow_append_newline rfl
  unfold rowsRead
  rw [hlines, hlines, hlines, lines_append, List.flatMap_append]

theorem rowsRead_flatMap (ls : List Bytes) :
    rowsRead (ls.flatMap (· ++ [newline])) = ls.flatMap rowsRead := by
  induction ls with
  | nil => rfl
  | cons l ls ih =>
      rw [List.flatMap_cons, List.append_assoc, List.singleton_append, rowsRead_append, ih,
        List.flatMap_cons]

/-- A line that fits the buffer is read as a whole. -/
theorem rowsRead_line {s : Bytes} (hs : newline ∉ s) (hlen : s.length ≤ 511) :
    rowsRead s = (scanRow s).toList := by
  by_cases hnil : s = []
  · rw [hnil]
    rfl
  · rw [rowsRead, pieces_line (by decide) hs hlen hnil]
    cases hrow : scanRow s with
    | none => rw [List.filterMap_cons_none hrow]; rfl
    | some row => rw [List.filterMap_cons_some hrow]; rfl

/-- Nothing is read where there are no digits. -/
theorem rowsRead_of_forall_not_isDigit {s : Bytes} (hs : ∀ b ∈ s, isDigit b = false) :
    rowsRead s = [] := by
  rw [rowsRead, List.filterMap_eq_nil_iff]
  intro piece hpiece
  apply scanRow_of_forall_not_isDigit
  intro b hb
  apply hs
  rw [← flatten_pieces (by decide : 0 < 511) s]
  exact List.mem_flatten.2 ⟨piece, hpiece, hb⟩

theorem rowsRead_blanks_append {n : Nat} {s : Bytes} (hs : newline ∉ s)
    (hlen : n + s.length ≤ 511) : rowsRead (blanks n ++ s) = (scanRow s).toList := by
  have hnot : newline ∉ blanks n ++ s := by
    rw [List.mem_append, not_or]
    exact ⟨fun hmem => absurd (List.eq_of_mem_replicate hmem) (by decide), hs⟩
  rw [rowsRead_line hnot (by rwa [List.length_append, length_blanks]), scanRow_blanks_append]

/-- A text that breaks the line it stands in: its last line goes on with what is behind it. -/
theorem rowsRead_broken {n : Nat} {s u : Bytes} (hu : newline ∉ u)
    (hlen : n + s.length + u.length ≤ 511) :
    rowsRead (blanks n ++ s ++ u) = (lines s).dropLast.filterMap scanRow ++
      (scanRow ((lines s).getLastD [] ++ u)).toList := by
  induction s using line_induction generalizing n with
  | last s hs =>
      have hnot : newline ∉ s ++ u := by
        rw [List.mem_append, not_or]
        exact ⟨hs, hu⟩
      rw [List.append_assoc, rowsRead_blanks_append hnot (by rw [List.length_append]; omega),
        lines_of_not_mem hs]
      rfl
  | line first rest hfirst ih =>
      rw [List.length_append, List.length_cons] at hlen
      have hsplit : blanks n ++ (first ++ newline :: rest) ++ u =
          (blanks n ++ first) ++ newline :: (blanks 0 ++ rest ++ u) := by
        simp only [List.append_assoc, List.cons_append, blanks, List.replicate_zero,
          List.nil_append]
      have hlast : (first :: lines rest).getLastD [] = (lines rest).getLastD [] := by
        rw [List.getLastD_eq_getLast?, List.getLastD_eq_getLast?, List.getLast?_cons,
          List.getLast?_eq_some_getLast (lines_ne_nil rest)]
        rfl
      rw [hsplit, rowsRead_append, rowsRead_blanks_append hfirst (by omega), ih (by omega),
        lines_cons hfirst, hlast, List.dropLast_cons_of_ne_nil (lines_ne_nil rest),
        ← List.append_assoc, List.filterMap_cons]
      cases scanRow first <;> rfl

/-! ### The lines of the table -/

theorem words_columns (l : Layout) (widths : List Nat) {cells : List Bytes}
    (hlen : widths.length = cells.length) (hcells : ∀ c ∈ cells, words c = [c]) :
    StartsBlank (l.columns widths cells) ∧ words (l.columns widths cells) = cells := by
  induction widths generalizing cells with
  | nil =>
      rw [List.eq_nil_of_length_eq_zero hlen.symm]
      exact ⟨fun b hb => (nomatch hb), rfl⟩
  | cons width widths ih =>
      obtain ⟨c, cells, rfl⟩ := List.exists_cons_of_length_eq_add_one hlen.symm
      rw [List.forall_mem_cons] at hcells
      obtain ⟨hblank, hwords⟩ := ih (Nat.succ_injective hlen) hcells.2
      have hcons : l.columns (width :: widths) (c :: cells) =
          blanks l.gap ++ (c ++ (blanks (width - c.length) ++ l.columns widths cells)) := by
        simp only [Layout.columns, List.zipWith_cons_cons, List.flatten_cons, Layout.column,
          List.append_assoc]
      have hrest := startsBlank_blanks (width - c.length) (Or.inr hblank)
      rw [hcons]
      refine ⟨startsBlank_blanks _ (Or.inl l.separated), ?_⟩
      rw [words_blanks_append, words_append hrest, hcells.1, words_blanks_append, hwords]
      rfl

theorem length_columns_le (l : Layout) (widths : List Nat) (cells : List Bytes) :
    (l.columns widths cells).length ≤
      (widths.map (l.gap + ·)).sum + (cells.map List.length).sum := by
  induction widths generalizing cells with
  | nil =>
      rw [Layout.columns, List.zipWith_nil_left]
      exact Nat.zero_le _
  | cons width widths ih =>
      cases cells with
      | nil =>
          rw [Layout.columns, List.zipWith_nil_right]
          exact Nat.zero_le _
      | cons c cells =>
          have hrest := ih cells
          rw [Layout.columns] at hrest ⊢
          rw [List.zipWith_cons_cons, List.flatten_cons, List.length_append, Layout.column,
            List.length_append, List.length_append, length_blanks, length_blanks]
          simp only [List.map_cons, List.sum_cons]
          omega

theorem mem_columns {l : Layout} {widths : List Nat} {cells : List Bytes} {b : UInt8}
    (hb : b ∈ l.columns widths cells) : b = 0x20 ∨ ∃ c ∈ cells, b ∈ c := by
  obtain ⟨t, ht, hbt⟩ := List.mem_flatten.1 hb
  obtain ⟨i, hi, rfl⟩ := List.mem_iff_getElem.1 ht
  rw [List.length_zipWith] at hi
  rw [List.getElem_zipWith, Layout.column, List.mem_append, List.mem_append] at hbt
  rcases hbt with hgap | hcell | hfill
  · exact Or.inl (List.eq_of_mem_replicate hgap)
  · exact Or.inr ⟨_, List.getElem_mem _, hcell⟩
  · exact Or.inl (List.eq_of_mem_replicate hfill)

theorem mem_behind {l : Layout} {name : Bytes} {cells : List Bytes} {b : UInt8}
    (hb : b ∈ l.behind name cells) : b = 0x20 ∨ ∃ c ∈ cells, b ∈ c := by
  rcases List.mem_append.1 hb with hfill | hcells
  · exact Or.inl (List.eq_of_mem_replicate hfill)
  · exact mem_columns hcells

/-- The header has no digits. -/
theorem rowsRead_header (l : Layout) : rowsRead l.header = [] := by
  apply rowsRead_of_forall_not_isDigit
  intro b hb
  rw [Layout.header, Layout.line, List.mem_append, List.mem_append] at hb
  rcases hb with (hindent | hname) | hbehind
  · rw [List.eq_of_mem_replicate hindent]
    decide
  · revert hname
    revert b
    decide +kernel
  · rcases mem_behind hbehind with rfl | ⟨c, hc, hbc⟩
    · decide
    · have hall : ∀ c ∈ ["pid".toUTF8.toList, "mali_mem".toUTF8.toList,
          "max_mali_mem".toUTF8.toList, "external_mem".toUTF8.toList, "ump_mem".toUTF8.toList,
          "dma_mem".toUTF8.toList], ∀ b ∈ c, isDigit b = false := by
        decide +kernel
      exact hall c hc b hbc

theorem rowsRead_separator (l : Layout) : rowsRead l.separator = [] := by
  apply rowsRead_of_forall_not_isDigit
  intro b hb
  rcases List.mem_append.1 hb with hmargin | hbar
  · rw [List.eq_of_mem_replicate hmargin]
    decide
  · rw [List.eq_of_mem_replicate hbar]
    decide

/-- The second word of a total is `mem`. -/
theorem rowsRead_summary (l : Layout) (total : BitVec 64) : rowsRead (l.summary total) = [] := by
  have hlen : (decimal total.toNat).length ≤ 20 :=
    length_decimal_le (by decide) (by have := total.isLt; omega)
  have hmargin := l.marginFits
  have hsixteen : "Mali mem usage: ".toUTF8.toList.length = 16 := by decide +kernel
  have hnot : newline ∉ "Mali mem usage: ".toUTF8.toList ++ decimal total.toNat := by
    rw [List.mem_append, not_or]
    refine ⟨by decide +kernel, fun hmem => ?_⟩
    exact absurd (isDigit_of_mem_decimal hmem) (by decide)
  rw [Layout.summary, rowsRead_blanks_append hnot (by rw [List.length_append]; omega)]
  have hwords : words ("Mali mem usage: ".toUTF8.toList ++ decimal total.toNat) =
      "Mali".toUTF8.toList :: "mem".toUTF8.toList ::
        ("usage:".toUTF8.toList :: words (decimal total.toNat)) := by
    have hsplit : "Mali mem usage: ".toUTF8.toList = "Mali mem usage:".toUTF8.toList ++ [0x20] := by
      decide +kernel
    have hfront : words "Mali mem usage:".toUTF8.toList =
        ["Mali".toUTF8.toList, "mem".toUTF8.toList, "usage:".toUTF8.toList] := by
      decide +kernel
    rw [hsplit, List.append_assoc, List.singleton_append, words_append_cons _ _ rfl, hfront]
    rfl
  cases hrow : scanRow ("Mali mem usage: ".toUTF8.toList ++ decimal total.toNat) with
  | none => rfl
  | some row =>
      obtain ⟨n, r, hscan, -⟩ := rowPid_of_scanRow hwords (by decide +kernel) hrow
      have hnone : scanInt "mem".toUTF8.toList = none := by decide +kernel
      rw [hnone] at hscan
      cases hscan

theorem rowsRead_table (l : Layout) (rows : List Row) (totals : List (BitVec 64)) :
    rowsRead (l.table rows totals) = rows.flatMap fun r => rowsRead (l.row r) := by
  have htotals : (totals.map l.summary).flatMap rowsRead = [] := by
    rw [List.flatMap_eq_nil_iff]
    intro s hs
    obtain ⟨total, -, rfl⟩ := List.mem_map.1 hs
    exact rowsRead_summary l total
  rw [Layout.table, rowsRead_flatMap, List.flatMap_cons, List.flatMap_cons, rowsRead_header,
    rowsRead_separator, List.flatMap_append, htotals, List.append_nil, List.flatMap_map]
  rfl

/-! ### One row of the table -/

theorem length_numbers (r : Row) : ((r.numbers.map decimal).map List.length).sum ≤ 110 := by
  have hpid : (decimal r.pid).length ≤ 10 :=
    length_decimal_le (by decide) (by have := r.pidRange; omega)
  have hval : ∀ i, (decimal (r.vals i).toNat).length ≤ 20 := fun i =>
    length_decimal_le (by decide) (by have := (r.vals i).isLt; omega)
  have h0 := hval 0
  have h1 := hval 1
  have h2 := hval 2
  have h3 := hval 3
  have h4 := hval 4
  show (decimal r.pid).length + ((decimal (r.vals 0).toNat).length +
    ((decimal (r.vals 1).toNat).length + ((decimal (r.vals 2).toNat).length +
      ((decimal (r.vals 3).toNat).length + ((decimal (r.vals 4).toNat).length + 0))))) ≤ 110
  omega

/-- What is read from a row: whatever its name holds in front of a newline, and what is left of the
name together with the numbers. -/
theorem rowsRead_row (l : Layout) (r : Row) :
    rowsRead (l.row r) = (lines r.name.bytes).dropLast.filterMap scanRow ++
      (scanRow ((lines r.name.bytes).getLastD [] ++
        l.behind r.name.bytes (r.numbers.map decimal))).toList := by
  apply rowsRead_broken
  · intro hmem
    rcases mem_behind hmem with hspace | ⟨c, hc, hbc⟩
    · exact absurd hspace (by decide)
    · obtain ⟨n, -, rfl⟩ := List.mem_map.1 hc
      exact absurd (isDigit_of_mem_decimal hbc) (by decide)
  · have hnumbers := length_numbers r
    have hcolumns := length_columns_le l l.widths (r.numbers.map decimal)
    have hname := r.name.short
    have hfits := l.lineFits
    have hwidths : (l.widths.map (l.gap + ·)).sum = l.pid + l.maliMem + l.maxMaliMem +
        l.externalMem + l.umpMem + l.dmaMem + 6 * l.gap := by
      show l.gap + l.pid + (l.gap + l.maliMem + (l.gap + l.maxMaliMem + (l.gap + l.externalMem +
        (l.gap + l.umpMem + (l.gap + l.dmaMem + 0))))) = _
      omega
    rw [hwidths] at hcolumns
    rw [Layout.behind, List.length_append, length_blanks]
    omega

theorem words_behind (l : Layout) (name : Bytes) (r : Row) :
    StartsBlank (l.behind name (r.numbers.map decimal)) ∧
      words (l.behind name (r.numbers.map decimal)) = r.numbers.map decimal := by
  have hcells : ∀ c ∈ r.numbers.map decimal, words c = [c] := by
    intro c hc
    obtain ⟨n, -, rfl⟩ := List.mem_map.1 hc
    exact words_decimal n
  obtain ⟨hblank, hwords⟩ := words_columns l l.widths rfl hcells
  exact ⟨startsBlank_blanks _ (Or.inr hblank), by rw [Layout.behind, words_blanks_append, hwords]⟩

/-- No word of a name is cut. -/
theorem ThreadName.length_word {name : ThreadName} {w : Bytes} {ws : List Bytes}
    (hwords : words ((lines name.bytes).getLastD []) = w :: ws) : w.length ≤ 127 := by
  have hword := length_le_of_words_eq_cons hwords
  have hline : ((lines name.bytes).getLastD []).length ≤ name.bytes.length := by
    rw [List.getLastD_eq_getLast?]
    cases hlast : (lines name.bytes).getLast? with
    | none => exact Nat.zero_le _
    | some line => exact length_le_of_mem_lines (List.mem_of_getLast? hlast)
  have hname := name.short
  omega

/-- A row with a plain name is read as it is meant. -/
theorem ThreadName.Plain.rowsRead_row {r : Row} (hplain : r.name.Plain) (l : Layout) :
    rowsRead (l.row r) = [r.meant] := by
  obtain ⟨⟨w, hw⟩, hfront⟩ := hplain
  obtain ⟨hblank, hwords⟩ := words_behind l r.name.bytes r
  have hlen := ThreadName.length_word hw
  have hline := words_append hblank ((lines r.name.bytes).getLastD [])
  rw [hw, hwords] at hline
  rw [Memtrack.rowsRead_row, List.filterMap_eq_nil_iff.2 hfront, scanRow_words r hline hlen]
  rfl

/-- Where the name's last line is not one word, the pid of what is read from it is decided by it
alone. -/
theorem ThreadName.exists_rowPid_last {name : ThreadName}
    (hlast : ∀ w, words ((lines name.bytes).getLastD []) ≠ [w]) :
    ∃ c : BitVec 32, ∀ (l : Layout) (r : Row), ∀ row ∈ scanRow ((lines name.bytes).getLastD [] ++
      l.behind name.bytes (r.numbers.map decimal)), row.rowPid = c := by
  have hline := fun (l : Layout) (r : Row) =>
    words_append (words_behind l name.bytes r).1 ((lines name.bytes).getLastD [])
  cases hwords : words ((lines name.bytes).getLastD []) with
  | nil =>
      -- the pid is taken for the name, and a number is missing at the end
      refine ⟨0, fun l r row hrow => ?_⟩
      have hnumbers := hline l r
      rw [hwords, (words_behind l name.bytes r).2, List.nil_append] at hnumbers
      rw [scanRow_numbers r hnumbers] at hrow
      cases hrow
  | cons w ws =>
      cases ws with
      | nil => exact absurd hwords (hlast w)
      | cons w' ws =>
          refine ⟨toInt (((scanInt w').map Prod.fst).getD 0), fun l r row hrow => ?_⟩
          have hfront := hline l r
          rw [hwords, List.cons_append, List.cons_append] at hfront
          obtain ⟨n, t, hn, hpid⟩ := rowPid_of_scanRow hfront (ThreadName.length_word hwords) hrow
          rw [hpid, hn]
          rfl

/-- With a name that is not plain, either nothing is read from the row, or what is read first has a
pid that the name alone decides. -/
theorem ThreadName.exists_rowPid {name : ThreadName} (hplain : ¬ name.Plain) :
    ∃ c : BitVec 32, ∀ (l : Layout) (r : Row), r.name = name →
      ∀ row ∈ (rowsRead (l.row r)).head?, row.rowPid = c := by
  cases hfront : (lines name.bytes).dropLast.filterMap scanRow with
  | cons first others =>
      refine ⟨first.rowPid, fun l r hname row hrow => ?_⟩
      rw [Memtrack.rowsRead_row, hname, hfront] at hrow
      cases hrow
      rfl
  | nil =>
      have hlast : ∀ w, words ((lines name.bytes).getLastD []) ≠ [w] := fun w hw =>
        hplain ⟨⟨w, hw⟩, List.filterMap_eq_nil_iff.1 hfront⟩
      obtain ⟨c, hc⟩ := ThreadName.exists_rowPid_last hlast
      refine ⟨c, fun l r hname row hrow => hc l r row ?_⟩
      rw [Memtrack.rowsRead_row, hname, hfront, List.nil_append] at hrow
      cases hscan : scanRow ((lines name.bytes).getLastD [] ++
          l.behind name.bytes (r.numbers.map decimal)) with
      | none =>
          rw [hscan] at hrow
          cases hrow
      | some found =>
          rw [hscan] at hrow
          exact hrow

/-! ### The whole table -/

/-- Row by row, what is read is what is meant. -/
def RowsKept (l : Layout) (names : List ThreadName) : Prop :=
  ∀ rows : List Row, rows.map Row.name = names →
    rows.flatMap (fun r => rowsRead (l.row r)) = rows.map Row.meant

theorem rowsKept_of_plain (l : Layout) {names : List ThreadName}
    (hplain : ∀ name ∈ names, name.Plain) : RowsKept l names := by
  rintro rows rfl
  induction rows with
  | nil => rfl
  | cons r rows ih =>
      rw [List.map_cons, List.forall_mem_cons] at hplain
      rw [List.flatMap_cons, ih hplain.2, hplain.1.rowsRead_row]
      rfl

def blankRow (pid : Nat) (hpid : pid < 2 ^ 31) (name : ThreadName) : Row := ⟨name, pid, hpid, 0⟩

theorem exists_pid (c d : BitVec 32) :
    ∃ pid, pid < 2 ^ 31 ∧ BitVec.ofNat 32 pid ≠ c ∧ BitVec.ofNat 32 pid ≠ d := by
  by_contra hall
  have htaken : ∀ pid < 2 ^ 31, BitVec.ofNat 32 pid = c ∨ BitVec.ofNat 32 pid = d := by
    intro pid hpid
    by_contra hfree
    rw [not_or] at hfree
    exact hall ⟨pid, hpid, hfree⟩
  have h0 := htaken 0 (by decide)
  have h1 := htaken 1 (by decide)
  have h2 := htaken 2 (by decide)
  bv_omega

/-- Of the rows with a name that is not plain, one has a pid that is not read from it. -/
theorem plain_of_rowsKept {l : Layout} {names : List ThreadName} (hkept : RowsKept l names) :
    ∀ name ∈ names, name.Plain := by
  induction names with
  | nil => exact fun _ hname => nomatch hname
  | cons name names ih =>
      have hrest : (names.map (blankRow 0 (by decide))).map Row.name = names := by
        rw [List.map_map]
        exact List.map_id' names
      have hfirst : name.Plain := by
        by_contra hplain
        obtain ⟨c, hc⟩ := ThreadName.exists_rowPid hplain
        generalize hx : (names.map (blankRow 0 (by decide))).flatMap
          (fun r => rowsRead (l.row r)) = x
        obtain ⟨pid, hpid, hnc, hnd⟩ := exists_pid c ((x.head?.map MaliRow.rowPid).getD 0)
        have hread := hkept (blankRow pid hpid name :: names.map (blankRow 0 (by decide)))
          (by rw [List.map_cons, hrest]; rfl)
        rw [List.flatMap_cons, hx, List.map_cons] at hread
        have hown := hc l (blankRow pid hpid name) rfl
        cases hrow : rowsRead (l.row (blankRow pid hpid name)) with
        | nil =>
            rw [hrow, List.nil_append] at hread
            rw [hread] at hnd
            exact hnd rfl
        | cons row others =>
            rw [hrow, List.cons_append, List.cons.injEq] at hread
            rw [hrow] at hown
            apply hnc
            rw [← hown row rfl, hread.1]
            rfl
      rw [List.forall_mem_cons]
      refine ⟨hfirst, ih fun rows hrows => ?_⟩
      have hread := hkept (blankRow 0 (by decide) name :: rows) (by rw [List.map_cons, hrows]; rfl)
      rw [List.flatMap_cons, List.map_cons,
        ThreadName.Plain.rowsRead_row (r := blankRow 0 (by decide) name) hfirst,
        List.singleton_append, List.cons.injEq] at hread
      exact hread.2

/-- The sum is one over the rows read. -/
theorem foldl_addLine (pid : BitVec 32) (column : Fin 5) (ps : List Bytes) (total : BitVec 64) :
    ps.foldl (addLine pid column) total = total +
      (((ps.filterMap scanRow).filter fun row => row.rowPid = pid).map
        fun row => row.vals column).sum := by
  induction ps generalizing total with
  | nil => simp
  | cons p ps ih =>
      rw [List.foldl_cons, ih, addLine]
      cases hrow : scanRow p with
      | none => rw [List.filterMap_cons_none hrow]
      | some row =>
          rw [List.filterMap_cons_some hrow]
          dsimp only
          by_cases hpid : row.rowPid = pid
          · rw [if_pos hpid, List.filter_cons_of_pos (by simpa using hpid), List.map_cons,
              List.sum_cons, BitVec.add_assoc]
          · rw [if_neg hpid, List.filter_cons_of_neg (by simpa using hpid)]

theorem maliSumForPid_of_rowsRead {text : Bytes} {rows : List Row}
    (hread : rowsRead text = rows.map Row.meant) (pid : BitVec 32) (column : Fin 5) :
    maliSumForPid (.ok text) pid column = .ok (usage rows pid column) := by
  rw [maliSumForPid, foldl_addLine]
  show Except.ok (0#64 + (((rowsRead text).filter _).map _).sum) = _
  rw [BitVec.zero_add, hread, List.filter_map, List.map_map]
  rfl

/-- What `get_memory` reports of a table is the usage of the column that its type stands for. -/
theorem getMemory_of_plain (l : Layout) {rows : List Row}
    (hplain : ∀ name ∈ rows.map Row.name, name.Plain) (totals : List (BitVec 64)) (pid : BitVec 32)
    {numRecords : Nat} (hcounted : numRecords ≠ 0) :
    getMemory (.ok (l.table rows totals)) pid .gl numRecords =
        .ok (1, [⟨usage rows pid 0, [.smapsUnaccounted, .isPrivate, .nonsecure]⟩]) ∧
      getMemory (.ok (l.table rows totals)) pid .graphics numRecords =
        .ok (1, [⟨usage rows pid 4, [.smapsUnaccounted, .isPrivate, .nonsecure]⟩]) := by
  have hread := (rowsRead_table l rows totals).trans (rowsKept_of_plain l hplain rows rfl)
  have hsum := maliSumForPid_of_rowsRead hread pid
  unfold getMemory
  dsimp only
  rw [if_neg hcounted, if_neg hcounted, hsum, hsum]
  exact ⟨rfl, rfl⟩

/-- **One word a name.** The rows read from a table are its rows, and every sum is right, whatever
the pids and sizes, exactly when each of the names is one word. -/
theorem sumsWholeTable_iff_plain (l : Layout) (names : List ThreadName) :
    SumsWholeTable l names ↔ ∀ name ∈ names, name.Plain := by
  constructor
  · intro hsums
    apply plain_of_rowsKept (l := l)
    intro rows hrows
    rw [← rowsRead_table l rows []]
    exact (hsums rows [] hrows).1
  · intro hplain rows totals hrows
    have hread := (rowsRead_table l rows totals).trans (rowsKept_of_plain l hplain rows hrows)
    exact ⟨hread, maliSumForPid_of_rowsRead hread⟩

def gpuCompletion : Row where
  name := ⟨"GPU completion".toUTF8.toList, by decide +kernel, by decide +kernel⟩
  pid := 1608
  pidRange := by decide
  vals := ![5074944, 5074944, 0, 0, 6144000]

/-- The row of a thread whose name has a space is skipped. -/
theorem spaced_name_is_skipped :
    maliSumForPid (.ok (documented.table [gpuCompletion] [])) 1608 0 = .ok 0 ∧
      ¬ SumsWholeTable documented [gpuCompletion.name] := by
  have hzero : (pieces 511 (documented.table [gpuCompletion] [])).foldl (addLine 1608 0) 0 = 0 := by
    decide +kernel
  have hskipped : maliSumForPid (.ok (documented.table [gpuCompletion] [])) 1608 0 = .ok 0 := by
    rw [maliSumForPid, hzero]
  refine ⟨hskipped, fun hsums => ?_⟩
  have hsum := (hsums [gpuCompletion] [] rfl).2 1608 0
  rw [hskipped, Except.ok.injEq] at hsum
  exact absurd hsum (by decide)

end LineageA1000.Memtrack
