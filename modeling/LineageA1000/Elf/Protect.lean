import LineageA1000.Elf.Stages

/-!
# What the pages of a library allow in the end

`elfload_open` gives the pages of each segment the segment's flags, one segment after the other in
the order of the program headers, and goes on when `mprotect` fails. So a page ends up with the
flags of the last segment whose pages take it in and whose `mprotect` succeeds, whatever the other
segments on the page ask for.
-/

namespace LineageA1000.Elf

open Memory

/-! ### The last element that counts -/

section

variable {α β : Type*} (p : α → Prop) [DecidablePred p] (f : α → β)

theorem foldl_ite_of_none {xs : List α} (h : ∀ a ∈ xs, ¬ p a) (b : β) :
    xs.foldl (fun b a => if p a then f a else b) b = b := by
  induction xs with
  | nil => rfl
  | cons a xs ih =>
      obtain ⟨ha, hxs⟩ := List.forall_mem_cons.1 h
      rw [List.foldl_cons, if_neg ha]
      exact ih hxs

theorem foldl_ite_of_last {xs front back : List α} {a : α} (heq : xs = front ++ a :: back)
    (ha : p a) (h : ∀ c ∈ back, ¬ p c) (b : β) :
    xs.foldl (fun b a => if p a then f a else b) b = f a := by
  rw [heq, List.foldl_append, List.foldl_cons, if_pos ha]
  exact foldl_ite_of_none p f h _

theorem none_or_exists_last (xs : List α) : (∀ a ∈ xs, ¬ p a) ∨
    ∃ front a back, xs = front ++ a :: back ∧ p a ∧ ∀ c ∈ back, ¬ p c := by
  induction xs with
  | nil => exact .inl nofun
  | cons x xs ih =>
      rcases ih with hnone | ⟨front, a, back, heq, ha, hback⟩
      · by_cases hx : p x
        · exact .inr ⟨[], x, xs, rfl, hx, hnone⟩
        · exact .inl (List.forall_mem_cons.2 ⟨hx, hnone⟩)
      · exact .inr ⟨x :: front, a, back, congrArg (x :: ·) heq, ha, hback⟩

end

/-! ### Access -/

/-- What a page allows. -/
structure Access where
  read : Bool
  write : Bool
  exec : Bool
deriving DecidableEq

namespace Access

/-- `a` allows all that `b` does. -/
def Grants (a b : Access) : Prop :=
  (b.read = true → a.read = true) ∧ (b.write = true → a.write = true) ∧
    (b.exec = true → a.exec = true)

/-- Writable and executable at once. -/
def WriteExec (a : Access) : Prop := a.write = true ∧ a.exec = true

end Access

def Phdr.access (ph : Phdr) : Access :=
  ⟨ph.pFlags.getLsbD 2, ph.pFlags.getLsbD 1, ph.pFlags.getLsbD 0⟩

def Protection.access (p : Protection) : Access := ⟨p.read, p.write, p.exec⟩

/-- The protection changes the page of `x`. -/
def Protection.Sets (p : Protection) (x : Addr) : Prop :=
  p.done = true ∧ Covers p.start p.size.toNat (pageDown x)

instance (p : Protection) (x : Addr) : Decidable (p.Sets x) := inferInstanceAs (Decidable (_ ∧ _))

/-- What the page of `x` allows once the mapping is there: the mapping is readable and writable,
and other pages are as they were. -/
def mappedAccess (before : Addr → Access) (phs : List Phdr) (base x : Addr) : Access :=
  if Covers base (spanOf phs).toNat (pageDown x) then ⟨true, true, false⟩ else before (pageDown x)

/-- What the page of `x` allows after some protections. -/
def accessAfter (initial : Access) (ps : List Protection) (x : Addr) : Access :=
  ps.foldl (fun a p => if p.Sets x then p.access else a) initial

/-! ### Segments and pages -/

/-- A byte of the segment lies on the page of `x`; `lo` is `lo.base`. -/
def Phdr.Meets (ph : Phdr) (lo x : Addr) : Prop :=
  ph.pType = ptLoad ∧
    ∃ k < ph.pMemsz.toNat, pageDown (lo + ph.pVaddr + BitVec.ofNat 32 k) = pageDown x

instance (ph : Phdr) (lo x : Addr) : Decidable (ph.Meets lo x) := by
  unfold Phdr.Meets
  infer_instance

/-- The page of `x` is one of the mapping or of a segment. -/
def ImagePage (phs : List Phdr) (base x : Addr) : Prop :=
  Covers base (spanOf phs).toNat (pageDown x) ∨ ∃ ph ∈ phs, ph.Meets (loadBase phs base) x

/-- The page of `x` suits the image: it allows what each segment on it asks for, and not both
writing and executing. -/
def Suits (phs : List Phdr) (base x : Addr) (a : Access) : Prop :=
  (∀ ph ∈ phs, ph.Meets (loadBase phs base) x → a.Grants ph.access) ∧
    (ImagePage phs base x → ¬ a.WriteExec)

/-- Every page suits the image after some protections. -/
def PagesMatch (before : Addr → Access) (phs : List Phdr) (base : Addr) (ps : List Protection) :
    Prop :=
  ∀ x, Suits phs base x (accessAfter (mappedAccess before phs base x) ps x)

/-! ### The segment that decides -/

/-- The `mprotect` for the segment takes in the page of `x` and succeeds. -/
def Phdr.Decides (env : Env) (lo : Addr) (x : Addr) (ph : Phdr) : Prop :=
  ph.pType = ptLoad ∧ (protectionFor env lo ph).Sets x

instance (env : Env) (lo x : Addr) (ph : Phdr) : Decidable (ph.Decides env lo x) :=
  inferInstanceAs (Decidable (_ ∧ _))

/-- On every page the flags of the last segment that decides suit the image; where none does, what
the page allows from the start does. -/
def LastSuits (env : Env) (before : Addr → Access) (phs : List Phdr) (base : Addr) : Prop :=
  ∀ x,
    (∀ front ph back, phs = front ++ ph :: back → ph.Decides env (loadBase phs base) x →
      (∀ later ∈ back, ¬ later.Decides env (loadBase phs base) x) →
        Suits phs base x ph.access) ∧
    ((∀ ph ∈ phs, ¬ ph.Decides env (loadBase phs base) x) →
      Suits phs base x (mappedAccess before phs base x))

theorem accessAfter_protectionsFor (env : Env) (lo x : Addr) (phs : List Phdr) (initial : Access) :
    accessAfter initial (protectionsFor env lo phs) x =
      phs.foldl (fun a ph => if ph.Decides env lo x then ph.access else a) initial := by
  unfold accessAfter protectionsFor
  induction phs generalizing initial with
  | nil => rfl
  | cons ph phs ih =>
      by_cases hload : ph.pType = ptLoad
      · rw [List.filter_cons_of_pos (by simpa using hload), List.map_cons, List.foldl_cons, ih,
          List.foldl_cons]
        have hsame : ph.Decides env lo x ↔ (protectionFor env lo ph).Sets x :=
          and_iff_right hload
        simp only [hsame]
        rfl
      · rw [List.filter_cons_of_neg (by simpa using hload), ih, List.foldl_cons,
          if_neg fun hdecides => hload hdecides.1]

/-- **The last segment decides.** After a call that succeeds, every page allows what the segments on
it ask for and none is both writable and executable, exactly when on every page the flags of the
last segment whose `mprotect` took effect there say so. -/
theorem pagesMatch_iff_lastSuits {env : Env} (before : Addr → Access) {want : List (List UInt8)}
    {out : List Addr} {phs : List Phdr} {base : Addr}
    (hopen : (openMapping env out).2 = some (phs, base))
    (hsuccess : (elfloadOpen env want out).result ≠ 0) :
    PagesMatch before phs base (elfloadOpen env want out).protections ↔
      LastSuits env before phs base := by
  have hprotections : (elfloadOpen env want out).protections =
      protectionsFor env (loadBase phs base) phs :=
    elfloadOpen_protections hopen hsuccess
  unfold PagesMatch LastSuits
  apply forall_congr'
  intro x
  rw [hprotections, accessAfter_protectionsFor]
  constructor
  · intro hsuits
    constructor
    · intro front ph back heq hdecides hback
      rwa [foldl_ite_of_last _ _ heq hdecides hback] at hsuits
    · intro hnone
      rwa [foldl_ite_of_none _ _ hnone] at hsuits
  · intro ⟨hlast, hnone⟩
    rcases none_or_exists_last (fun ph => ph.Decides env (loadBase phs base) x) phs with
      hno | ⟨front, ph, back, heq, hdecides, hback⟩
    · rw [foldl_ite_of_none _ _ hno]
      exact hnone hno
    · rw [foldl_ite_of_last _ _ heq hdecides hback]
      exact hlast front ph back heq hdecides hback

/-- A library whose code and whose writable data share a page. -/
def textAndData : List UInt8 :=
  leWords [0x464C457F, 0x00010101, 0, 0, 0x00280003, 1, 0, 0x34, 0, 0, 0x00200034, 3, 0,
    1, 0, 0, 0, 0xBC, 0xBC, 5, 0x1000,
    1, 0xBC, 0x800, 0x800, 0, 0x100, 6, 4,
    2, 0x94, 0x94, 0x94, 0x20, 0x20, 6, 4,
    6, 0xB4, 5, 0xB4, 4, 0xB4, 0, 0,
    0, 0]

def textAndDataPhs : List Phdr :=
  [⟨1, 0, 0, 0xBC, 0xBC, 5⟩, ⟨1, 0xBC, 0x800, 0, 0x100, 6⟩, ⟨2, 0x94, 0x94, 0x20, 0x20, 6⟩]

theorem pagesMatch_iff_lastSuits_textAndData :
    PagesMatch (fun _ => ⟨false, false, false⟩) textAndDataPhs 0x40000000
        (elfloadOpen (process textAndData) [] []).protections ↔
      LastSuits (process textAndData) (fun _ => ⟨false, false, false⟩) textAndDataPhs
        0x40000000 :=
  pagesMatch_iff_lastSuits _ (by decide +kernel) (by decide +kernel)

/-- The writable segment comes last, so the page of the code is no longer executable. -/
theorem shared_page_loses_exec :
    (openMapping (process textAndData) []).2 = some (textAndDataPhs, 0x40000000) ∧
      (elfloadOpen (process textAndData) [] []).result ≠ 0 ∧
      ∀ before, ¬ PagesMatch before textAndDataPhs 0x40000000
        (elfloadOpen (process textAndData) [] []).protections := by
  refine ⟨by decide +kernel, by decide +kernel, fun before hmatch => ?_⟩
  have hprotections : (elfloadOpen (process textAndData) [] []).protections =
      [⟨0x40000000, 0x1000, true, false, true, true⟩,
        ⟨0x40000000, 0x1000, true, true, false, true⟩] := by
    decide +kernel
  rw [hprotections] at hmatch
  have hfinal : ∀ a, accessAfter a [⟨0x40000000, 0x1000, true, false, true, true⟩,
      ⟨0x40000000, 0x1000, true, true, false, true⟩] 0x40000000 = ⟨true, true, false⟩ :=
    fun _ => rfl
  have hexec := ((hmatch 0x40000000).1 ⟨1, 0, 0, 0xBC, 0xBC, 5⟩ List.mem_cons_self
    ⟨rfl, 0, by decide, by decide⟩).2.2 (by decide)
  rw [hfinal] at hexec
  cases hexec

end LineageA1000.Elf
