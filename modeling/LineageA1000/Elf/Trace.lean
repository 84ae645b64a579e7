import LineageA1000.Elf.Stages

/-!
# What a failed call leaves behind

`elfload_open` has one exit for every failure, which takes the mapping away again. Everything up to
the relocations can fail without a trace. The wanted symbols are looked up last, though, one by one
and straight into the caller's array, when the library's constructors have already run; and a
library whose address zero falls on the null address is reported as a failure after all is done.
-/

namespace LineageA1000.Elf

open Memory

/-! ### Constructors -/

def Callable (fn : BitVec 32) : Prop := fn ≠ 0 ∧ fn ≠ -1

instance (fn : BitVec 32) : Decidable (Callable fn) := inferInstanceAs (Decidable (_ ∧ _))

/-- Some entry of the table of constructors is called. -/
def Image.HasConstructor (image : Image) (memory : Memory) : Prop :=
  image.tables.initArray ≠ 0 ∧ ∃ k < image.tables.initArraysz.toNat / 4,
    Callable (memory.word (image.base + image.tables.initArray + BitVec.ofNat 32 (4 * k)))

instance (image : Image) (memory : Memory) : Decidable (image.HasConstructor memory) :=
  inferInstanceAs (Decidable (_ ∧ _))

theorem runConstructors_succ (env : Env) (n : Nat) (fns : Addr) (l : Loader) :
    runConstructors env (n + 1) fns l =
      if Callable (l.memory.word fns) then
        runConstructors env n (fns + 4)
          { l with
            memory := env.call (l.memory.word fns) l.memory
            called := l.called ++ [l.memory.word fns] }
      else runConstructors env n (fns + 4) l := rfl

theorem runConstructors_called_le (env : Env) (n : Nat) (fns : Addr) (l : Loader) :
    l.called.length ≤ (runConstructors env n fns l).called.length := by
  induction n generalizing fns l with
  | zero => exact Nat.le_refl _
  | succ n ih =>
      rw [runConstructors_succ]
      split
      · refine Nat.le_trans ?_ (ih (fns + 4) _)
        simp
      · exact ih (fns + 4) l

/-- The first constructor is called with the memory that the loader left. -/
theorem runConstructors_called (env : Env) (n : Nat) (fns : Addr) (l : Loader) :
    ((∀ k < n, ¬ Callable (l.memory.word (fns + BitVec.ofNat 32 (4 * k)))) →
      runConstructors env n fns l = l) ∧
    ((∃ k < n, Callable (l.memory.word (fns + BitVec.ofNat 32 (4 * k)))) →
      l.called.length < (runConstructors env n fns l).called.length) := by
  induction n generalizing fns with
  | zero => exact ⟨fun _ => rfl, fun ⟨k, hk, _⟩ => absurd hk (Nat.not_lt_zero k)⟩
  | succ n ih =>
      have hnext : ∀ k,
          fns + 4 + BitVec.ofNat 32 (4 * k) = fns + BitVec.ofNat 32 (4 * (k + 1)) := by
        intro k
        rw [Nat.mul_succ, Nat.add_comm, BitVec.ofNat_add, BitVec.add_assoc]
        rfl
      have hzero : fns + BitVec.ofNat 32 (4 * 0) = fns := BitVec.add_zero fns
      obtain ⟨hnone, hsome⟩ := ih (fns + 4)
      rw [runConstructors_succ]
      constructor
      · intro h
        have hfirst := h 0 (Nat.succ_pos n)
        rw [hzero] at hfirst
        rw [if_neg hfirst]
        apply hnone
        intro k hk
        rw [hnext]
        exact h (k + 1) (Nat.succ_lt_succ hk)
      · intro ⟨k, hk, hcall⟩
        by_cases hfirst : Callable (l.memory.word fns)
        · rw [if_pos hfirst]
          refine Nat.lt_of_lt_of_le ?_ (runConstructors_called_le env n (fns + 4) _)
          simp
        · rw [if_neg hfirst]
          cases k with
          | zero =>
              rw [hzero] at hcall
              exact absurd hcall hfirst
          | succ k =>
              refine hsome ⟨k, Nat.lt_of_succ_lt_succ hk, ?_⟩
              rwa [hnext]

theorem construct_called_eq_nil_iff {env : Env} {image : Image} {l : Loader}
    (hl : l.called = []) :
    (image.construct env l).called = [] ↔ ¬ image.HasConstructor l.memory := by
  constructor
  · intro hnil ⟨htable, k, hk, hcall⟩
    have hsize : image.tables.initArraysz ≠ 0 := by
      intro hzero
      rw [hzero] at hk
      exact absurd hk (Nat.not_lt_zero k)
    have hcalled := (runConstructors_called env (image.tables.initArraysz.toNat / 4)
      (image.base + image.tables.initArray) l).2 ⟨k, hk, hcall⟩
    unfold Image.construct at hnil
    rw [if_pos ⟨htable, hsize⟩] at hnil
    rw [hnil] at hcalled
    exact absurd hcalled (Nat.not_lt_zero _)
  · intro hnone
    unfold Image.construct
    split
    · rename_i htable
      rw [(runConstructors_called env _ _ l).1 fun k hk hcall => hnone ⟨htable.1, k, hk, hcall⟩]
      exact hl
    · exact hl

/-! ### The caller's array -/

/-- What is written to `out`: the addresses of the wanted symbols, up to the first that is not
found. -/
def writtenFor (env : Env) (memory : Memory) (lo : Loaded) : List (List UInt8) → List Addr
  | [] => []
  | name :: want =>
      resolve env memory lo name ::
        if resolve env memory lo name = 0 then [] else writtenFor env memory lo want

/-- `ps` is written from entry `i` on. -/
def writeOut (out : List Addr) (i : Nat) : List Addr → List Addr
  | [] => out
  | p :: ps => writeOut (out.set i p) (i + 1) ps

/-- From entry `i` on, `out` already holds `ps`. -/
def Holds (out : List Addr) (i : Nat) (ps : List Addr) : Prop :=
  ∀ k p, ps[k]? = some p → ∀ a, out[i + k]? = some a → a = p

theorem findWanted_eq (env : Env) (lo : Loaded) (want : List (List UInt8)) (i : Nat) (l : Loader) :
    findWanted env lo want i l =
      ({ l with out := writeOut l.out i (writtenFor env l.memory lo want) },
        decide (∀ name ∈ want, resolve env l.memory lo name ≠ 0)) := by
  induction want generalizing i l with
  | nil => simp [findWanted, writtenFor, writeOut]
  | cons name want ih =>
      unfold findWanted writtenFor
      dsimp only
      by_cases hmissing : resolve env l.memory lo name = 0
      · rw [if_pos hmissing, if_pos hmissing]
        simp [writeOut, hmissing]
      · rw [if_neg hmissing, if_neg hmissing, ih]
        have hboth : (∀ q ∈ name :: want, resolve env l.memory lo q ≠ 0) ↔
            ∀ q ∈ want, resolve env l.memory lo q ≠ 0 := by
          rw [List.forall_mem_cons]
          exact and_iff_right hmissing
        simp only [hboth]
        rfl

theorem writeOut_before {i j : Nat} (hij : j < i) (out ps : List Addr) :
    (writeOut out i ps)[j]? = out[j]? := by
  induction ps generalizing out i with
  | nil => rfl
  | cons p ps ih =>
      rw [writeOut, ih (Nat.lt_succ_of_lt hij), List.getElem?_set_ne (Nat.ne_of_gt hij)]

theorem set_eq_self_iff {out : List Addr} {i : Nat} {p : Addr} :
    out.set i p = out ↔ ∀ a, out[i]? = some a → a = p := by
  constructor
  · intro hset a ha
    have hat : (out.set i p)[i]? = some p := by
      have hi : i < out.length := (List.getElem?_eq_some_iff.1 ha).1
      rw [List.getElem?_set_self hi]
    rw [hset, ha] at hat
    exact Option.some.inj hat
  · intro h
    apply List.ext_getElem?
    intro j
    by_cases hij : i = j
    · subst hij
      cases hat : out[i]? with
      | none =>
          have hi : out.length ≤ i := List.getElem?_eq_none_iff.1 hat
          rw [List.set_eq_of_length_le hi, hat]
      | some a =>
          rw [List.getElem?_set_self (List.getElem?_eq_some_iff.1 hat).1, h a hat]
    · rw [List.getElem?_set_ne hij]

theorem writeOut_eq_self_iff {out ps : List Addr} {i : Nat} :
    writeOut out i ps = out ↔ Holds out i ps := by
  induction ps generalizing i with
  | nil => exact ⟨fun _ => nofun, fun _ => rfl⟩
  | cons p ps ih =>
      have hsplit : Holds out i (p :: ps) ↔ (∀ a, out[i]? = some a → a = p) ∧
          Holds out (i + 1) ps := by
        constructor
        · intro h
          refine ⟨h 0 p rfl, fun k q hq a ha => h (k + 1) q hq a ?_⟩
          rwa [Nat.add_right_comm, Nat.add_assoc] at ha
        · intro ⟨hfirst, hrest⟩ k q hq a ha
          cases k with
          | zero =>
              cases hq
              exact hfirst a ha
          | succ k =>
              apply hrest k q hq a
              rwa [Nat.add_right_comm, Nat.add_assoc]
      rw [hsplit, ← ih, ← set_eq_self_iff, writeOut]
      constructor
      · intro h
        have hset : out.set i p = out := by
          rw [set_eq_self_iff]
          intro a ha
          have hi : i < out.length := (List.getElem?_eq_some_iff.1 ha).1
          have hat := writeOut_before (Nat.lt_succ_self i) (out.set i p) ps
          rw [h, ha, List.getElem?_set_self hi] at hat
          exact Option.some.inj hat
        rw [hset] at h
        exact ⟨hset, h⟩
      · intro ⟨hset, hrest⟩
        rwa [hset]

/-! ### When the wanted symbols are looked up -/

theorem ready_spec (env : Env) (image : Image) {out : List Addr} {l : Loader}
    (h : Untouched out l) :
    (image.ready env l).out = out ∧ (image.ready env l).unmapped = false ∧
      (image.ready env l).result = 0 ∧
      ((image.ready env l).called = [] ↔ ¬ image.HasConstructor l.memory) := by
  obtain ⟨hout, hcalled, hunmapped, hresult⟩ := h
  obtain ⟨memory, called, heq⟩ := ready_eq env image l
  refine ⟨?_, ?_, ?_, ?_⟩
  · rw [heq]
    exact hout
  · rw [heq]
    exact hunmapped
  · rw [heq]
    exact hresult
  · unfold Image.ready
    rw [foldl_protect]
    exact construct_called_eq_nil_iff hcalled

/-! ### The whole function -/

/-- A call that reports failure has left the array as it was, and has run no constructor of an image
that it took away. -/
def NoTrace (out : List Addr) (l : Loader) : Prop :=
  l.result = 0 → l.out = out ∧ (l.unmapped = true → l.called = [])

theorem Untouched.noTrace {out : List Addr} {l : Loader} (h : Untouched out l) :
    NoTrace out l ∧ NoTrace out { l with unmapped := true } :=
  ⟨fun _ => ⟨h.1, fun _ => h.2.1⟩, fun _ => ⟨h.1, fun _ => h.2.1⟩⟩

/-- A library that gets through its relocations has all wanted symbols and is not mapped with its
address zero at the null address; or else what is written to the array is there already, and it has
no constructor where a symbol is missing. -/
def Harmless (env : Env) (want : List (List UInt8)) (out : List Addr) : Prop :=
  ∀ phs base l image l', (openMapping env out).2 = some (phs, base) →
    mapImage env phs (loadBase phs base) (openMapping env out).1 = (l, some image) →
    relocateImage env image l = (l', true) →
      let memory := (image.ready env l').memory
      let lo := image.loaded l.memory
      (∀ name ∈ want, resolve env memory lo name ≠ 0) ∧ image.base ≠ 0 ∨
        Holds out 0 (writtenFor env memory lo want) ∧
          (image.HasConstructor l'.memory → ∀ name ∈ want, resolve env memory lo name ≠ 0)

/-- The end of a call whose relocations succeed. -/
theorem noTrace_relocated {env : Env} {image : Image} {out : List Addr} {l : Loader}
    (h : Untouched out l) (lo : Loaded) (want : List (List UInt8)) :
    NoTrace out
      (match findWanted env lo want 0 (image.ready env l) with
      | (l, false) => { l with unmapped := true }
      | (l, true) => { l with result := image.base }) ↔
    (∀ name ∈ want, resolve env (image.ready env l).memory lo name ≠ 0) ∧ image.base ≠ 0 ∨
      Holds out 0 (writtenFor env (image.ready env l).memory lo want) ∧
        (image.HasConstructor l.memory →
          ∀ name ∈ want, resolve env (image.ready env l).memory lo name ≠ 0) := by
  obtain ⟨hout, hunmapped, hresult, hcalled⟩ := ready_spec env image h
  rw [findWanted_eq, hout, ← writeOut_eq_self_iff]
  by_cases hfound : ∀ name ∈ want, resolve env (image.ready env l).memory lo name ≠ 0
  · rw [decide_eq_true hfound]
    constructor
    · intro htrace
      by_cases hbase : image.base = 0
      · exact .inr ⟨(htrace hbase).1, fun _ => hfound⟩
      · exact .inl ⟨hfound, hbase⟩
    · rintro (⟨-, hbase⟩ | ⟨hwritten, -⟩)
      · exact fun hzero => absurd hzero hbase
      · refine fun _ => ⟨hwritten, fun htaken => ?_⟩
        exact absurd (hunmapped.symm.trans htaken) (by decide)
  · rw [decide_eq_false hfound]
    constructor
    · intro htrace
      obtain ⟨hwritten, hnone⟩ := htrace hresult
      exact .inr ⟨hwritten, fun hcons => absurd hcons (hcalled.1 (hnone rfl))⟩
    · rintro (⟨hall, -⟩ | ⟨hwritten, hcons⟩)
      · exact absurd hall hfound
      · exact fun _ => ⟨hwritten, fun _ => hcalled.2 fun hhas => hfound (hcons hhas)⟩

/-- **The wanted symbols come too late.** Whatever the library and the wanted symbols, a call that
fails leaves no trace exactly when the library is harmless. -/
theorem noTrace_iff_harmless (env : Env) (want : List (List UInt8)) (out : List Addr) :
    NoTrace out (elfloadOpen env want out) ↔ Harmless env want out := by
  have hopened := openMapping_untouched env out
  unfold elfloadOpen Harmless
  cases hopen : openMapping env out with
  | mk l₀ mapping =>
  rw [hopen] at hopened
  cases mapping with
  | none => exact ⟨fun _ _ _ _ _ _ => nofun, fun _ => hopened.noTrace.1⟩
  | some mapping =>
  obtain ⟨phs, base⟩ := mapping
  have hmapped := mapImage_untouched hopened env phs (loadBase phs base)
  cases hmap : mapImage env phs (loadBase phs base) l₀ with
  | mk l image? =>
  rw [hmap] at hmapped
  cases image? with
  | none =>
      refine ⟨fun _ phs' base' l₁ image l₂ hsome himage => ?_, fun _ => ?_⟩
      · cases hsome
        rw [hmap] at himage
        cases himage
      · dsimp only
        rw [hmap]
        exact hmapped.noTrace.2
  | some image =>
  have hrelocated := relocateImage_untouched hmapped env image
  cases hrelocate : relocateImage env image l with
  | mk l' ok =>
  rw [hrelocate] at hrelocated
  dsimp only
  rw [hmap]
  cases ok with
  | false =>
      refine ⟨fun _ phs' base' l₁ image' l₂ hsome himage hok => ?_, fun _ => ?_⟩
      · cases hsome
        rw [hmap] at himage
        cases himage
        rw [hrelocate] at hok
        cases hok
      · dsimp only
        rw [finishImage_of_not_relocated hrelocate]
        exact hrelocated.noTrace.2
  | true =>
      have hready : Untouched out l' := hrelocated
      dsimp only
      rw [finishImage_of_relocated hrelocate]
      apply (noTrace_relocated hready (image.loaded l.memory) want).trans
      constructor
      · intro h phs' base' l₁ image' l₂ hsome himage hok
        cases hsome
        rw [hmap] at himage
        cases himage
        rw [hrelocate] at hok
        cases hok
        exact h
      · intro h
        exact h phs base l image l' rfl hmap hrelocate

/-- A library with one constructor, at `0x60`, and no symbols. -/
def withConstructor : List UInt8 :=
  leWords [0x464C457F, 0x00010101, 0, 0, 0x00280003, 1, 0, 0x34, 0, 0, 0x00200034, 2, 0,
    1, 0, 0, 0, 0xC8, 0xC8, 7, 0x1000,
    2, 0x74, 0x74, 0x74, 0x40, 0x40, 6, 4,
    6, 0xB4, 5, 0xB4, 4, 0xB4, 17, 0xBC, 18, 8, 25, 0xC4, 27, 4, 0, 0,
    0, 0,
    0xC4, 23,
    0x60]

/-- A symbol is wanted that nothing defines: the library is taken away after its constructor has
run, and the array has changed. -/
theorem failure_runs_constructor :
    (elfloadOpen (process withConstructor) ["HDR_Function".toUTF8.toList] [0x1234]).unmapped =
        true ∧
      (elfloadOpen (process withConstructor) ["HDR_Function".toUTF8.toList] [0x1234]).called =
        [0x40000060] ∧
      (elfloadOpen (process withConstructor) ["HDR_Function".toUTF8.toList] [0x1234]).out = [0] ∧
      ¬ NoTrace [0x1234]
        (elfloadOpen (process withConstructor) ["HDR_Function".toUTF8.toList] [0x1234]) := by
  refine ⟨by decide +kernel, by decide +kernel, by decide +kernel, fun htrace => ?_⟩
  exact absurd (htrace (by decide +kernel)).1 (by decide +kernel)

end LineageA1000.Elf
