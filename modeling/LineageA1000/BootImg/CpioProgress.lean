import LineageA1000.BootImg.CpioBlock

/-!
# Where the parser of the archive stands

`cpio_parse` goes from header to header by the two size fields it reads, and `int(_, 16)` reads a
sign as well as digits. The parser moves forward, takes its slices the right way round and ends as
long as every header it comes to has a name of at least one byte and data of at least none; a
negative size sends it back, and it may then read the same header for ever.
-/

namespace LineageA1000.BootImg

open Bytes

variable {buf : Bytes} {q q' nsz fsz : Int}

/-- Where the data of the entry at `q` starts. -/
def dataPos (q nsz : Int) : Int := align4 (q + 110 + nsz)

/-- Where the parser goes after the entry at `q`. -/
def nextPos (q nsz fsz : Int) : Int := align4 (dataPos q nsz + fsz)

/-- A header with two readable size fields stands at `q`. -/
def EntryAt (buf : Bytes) (q nsz fsz : Int) : Prop :=
  q + 110 ≤ buf.length ∧ buf.pySlice q (q + 6) = cpioMagic ∧
    sizeField (buf.pySlice q (q + 110)) 94 102 = .ok nsz ∧
    sizeField (buf.pySlice q (q + 110)) 54 62 = .ok fsz

/-- The positions at which the loop of `cpio_parse` tests its condition. -/
inductive Reached (buf : Bytes) : Int → Prop
  | start : Reached buf 0
  | next {q q' : Int} {it : Item} (hq : Reached buf q)
      (hstep : cpioStep buf q = .ok (some (it, q'))) (hname : it.name ≠ trailerName) :
      Reached buf q'

/-- `cpio_parse` ends, and every entry it comes to moves it forward and has its name and its data in
slices that do not end before they start. -/
structure Progresses (buf : Bytes) : Prop where
  ends : ∃ fuel, (cpioParse fuel buf).isSome
  advances : ∀ q nsz fsz, Reached buf q → EntryAt buf q nsz fsz → q < nextPos q nsz fsz
  nameSlice : ∀ q nsz fsz, Reached buf q → EntryAt buf q nsz fsz → q + 110 ≤ q + 110 + nsz - 1
  dataSlice : ∀ q nsz fsz, Reached buf q → EntryAt buf q nsz fsz →
    dataPos q nsz ≤ dataPos q nsz + fsz

/-- Every header the parser comes to leaves room for the NUL of its name and has no negative data
size. -/
def SizesForward (buf : Bytes) : Prop :=
  ∀ q nsz fsz, Reached buf q → EntryAt buf q nsz fsz → 1 ≤ nsz ∧ 0 ≤ fsz

/-! ### One entry -/

theorem le_align4 (n : Int) : n ≤ align4 n := by
  rw [align4]
  omega

theorem lt_nextPos (hnsz : 1 ≤ nsz) (hfsz : 0 ≤ fsz) : q < nextPos q nsz fsz := by
  have hdata := le_align4 (q + 110 + nsz)
  have hend := le_align4 (dataPos q nsz + fsz)
  rw [nextPos]
  rw [dataPos] at hend ⊢
  omega

/-- The parser reads an entry only where a header with two sizes stands, and goes to its end. -/
theorem entryAt_of_cpioStep {it : Item} (hstep : cpioStep buf q = .ok (some (it, q'))) :
    ∃ nsz fsz, EntryAt buf q nsz fsz ∧ q' = nextPos q nsz fsz := by
  simp only [cpioStep] at hstep
  split at hstep
  · cases hstep
  · rename_i hfits
    split at hstep
    · cases hstep
    · rename_i hmagic
      obtain ⟨nsz, hnsz, hstep⟩ := bind_eq_ok.1 hstep
      obtain ⟨fsz, hfsz, hstep⟩ := bind_eq_ok.1 hstep
      cases hstep
      exact ⟨nsz, fsz, ⟨not_not.1 hfits, not_not.1 hmagic, hnsz, hfsz⟩, rfl⟩

/-! ### The whole parse -/

theorem lt_of_cpioStep (hsizes : SizesForward buf) (hq : Reached buf q) {it : Item}
    (hstep : cpioStep buf q = .ok (some (it, q'))) : q < q' ∧ q + 110 ≤ buf.length := by
  obtain ⟨nsz, fsz, hentry, rfl⟩ := entryAt_of_cpioStep hstep
  obtain ⟨hnsz, hfsz⟩ := hsizes q nsz fsz hq hentry
  exact ⟨lt_nextPos hnsz hfsz, hentry.1⟩

/-- What is left of the archive bounds the passes the loop still makes. -/
theorem cpioLoop_isSome (hsizes : SizesForward buf) (fuel : Nat) (items : List Item)
    (hq : Reached buf q) (hfuel : buf.length - q < fuel) :
    (cpioLoop buf (fuel + 1) items q).isSome := by
  induction fuel generalizing items q with
  | zero =>
      rw [cpioLoop]
      split
      · rfl
      · rfl
      · rename_i hstep
        have := (lt_of_cpioStep hsizes hq hstep).2
        omega
  | succ fuel ih =>
      rw [cpioLoop]
      split
      · rfl
      · rfl
      · rename_i it q' hstep
        have hlt := (lt_of_cpioStep hsizes hq hstep).1
        split
        · rfl
        · rename_i hname
          apply ih
          · exact hq.next hstep hname
          · omega

theorem cpioParse_isSome (hsizes : SizesForward buf) :
    (cpioParse (buf.length + 2) buf).isSome := by
  apply cpioLoop_isSome hsizes
  · exact .start
  · omega

/-- `cpio_parse` moves forward to its end on exactly the archives in which every header it comes to
has a name of at least one byte and data of at least none. -/
theorem progresses_iff (buf : Bytes) : Progresses buf ↔ SizesForward buf := by
  constructor
  · intro hprogress q nsz fsz hq hentry
    have hname := hprogress.nameSlice q nsz fsz hq hentry
    have hdata := hprogress.dataSlice q nsz fsz hq hentry
    omega
  · intro hsizes
    apply Progresses.mk
    · exact ⟨buf.length + 2, cpioParse_isSome hsizes⟩
    · intro q nsz fsz hq hentry
      obtain ⟨hnsz, hfsz⟩ := hsizes q nsz fsz hq hentry
      exact lt_nextPos hnsz hfsz
    · intro q nsz fsz hq hentry
      have hnsz := (hsizes q nsz fsz hq hentry).1
      omega
    · intro q nsz fsz hq hentry
      have hfsz := (hsizes q nsz fsz hq hentry).2
      omega

/-- A header whose name takes one byte and whose data takes `-0000070` bytes, 112 before its
start. -/
def backwardHeader : Bytes :=
  cpioMagic ++ List.replicate 48 0x30 ++ [0x2D, 0x30, 0x30, 0x30, 0x30, 0x30, 0x37, 0x30] ++
    List.replicate 32 0x30 ++ [0x30, 0x30, 0x30, 0x30, 0x30, 0x30, 0x30, 0x31] ++
    List.replicate 8 0x30

/-- The parser comes back to the header it has just read. -/
theorem cpioStep_backwardHeader :
    ∃ it, cpioStep backwardHeader 0 = .ok (some (it, 0)) ∧ it.name ≠ trailerName := by
  refine ⟨⟨backwardHeader, [], []⟩, ?_, by decide⟩
  decide

theorem cpioLoop_backwardHeader (fuel : Nat) (items : List Item) :
    cpioLoop backwardHeader fuel items 0 = none := by
  obtain ⟨it, hstep, hname⟩ := cpioStep_backwardHeader
  induction fuel generalizing items with
  | zero => rfl
  | succ fuel ih =>
      simp only [cpioLoop, hstep, if_neg hname]
      exact ih (items ++ [it])

theorem not_progresses_backwardHeader : ¬ Progresses backwardHeader := by
  intro hprogress
  obtain ⟨fuel, hends⟩ := hprogress.ends
  rw [cpioParse, cpioLoop_backwardHeader] at hends
  cases hends

end LineageA1000.BootImg
