import LineageA1000.Elf.Stages
import Mathlib.Data.List.Find

/-!
# What the relocations come to

The loader reads each relocation entry from the memory that the entries before it have changed, and
so are the symbols and the names read. Where no entry names a word of these tables, all of them can
be read off the image as the segments were copied: the memory is then that of the entries' rules,
applied to the words they name one after the other.
-/

namespace LineageA1000.Elf

open Memory

/-! ### Symbols -/

def symbolAt (lo : Loaded) (i : Nat) : Addr := lo.symtab + 16 * BitVec.ofNat 32 i

def nameOf (m : Memory) (lo : Loaded) (i : Nat) : List UInt8 :=
  m.cstring (lo.strtab + m.word (symbolAt lo i))

/-- Symbol `i` is a definition of the name. -/
def Defines (m : Memory) (lo : Loaded) (name : List UInt8) (i : Nat) : Prop :=
  m.half (symbolAt lo i + 14) ≠ 0 ∧ m.word (symbolAt lo i + 4) ≠ 0 ∧ nameOf m lo i = name

instance (m : Memory) (lo : Loaded) (name : List UInt8) (i : Nat) :
    Decidable (Defines m lo name i) := inferInstanceAs (Decidable (_ ∧ _))

/-- What a name stands for: the library's own definition of it, the first if there are several;
else that of the global scope; else one of the loader's own stubs; `0` if there is none. -/
def symbolValue (env : Env) (m : Memory) (lo : Loaded) (name : List UInt8) : Addr :=
  match (List.range lo.nsyms.toNat).find? fun i => Defines m lo name i with
  | some i => lo.base + m.word (symbolAt lo i + 4)
  | none => if env.dlsym name ≠ 0 then env.dlsym name else legacyAbi env name

theorem ownSymbol_eq (m : Memory) (lo : Loaded) (name : List UInt8) (n i : Nat) :
    ownSymbol m lo name n (symbolAt lo i) =
      ((List.range' i n).find? fun i => Defines m lo name i).map fun i =>
        lo.base + m.word (symbolAt lo i + 4) := by
  induction n generalizing i with
  | zero => rfl
  | succ n ih =>
      have hnext : symbolAt lo i + 16 = symbolAt lo (i + 1) := by
        unfold symbolAt
        rw [BitVec.ofNat_add, BitVec.mul_add, BitVec.add_assoc]
        rfl
      rw [ownSymbol, hnext, ih, List.range'_succ]
      by_cases hdef : Defines m lo name i
      · rw [List.find?_cons_of_pos (by simpa using hdef)]
        exact if_pos hdef
      · rw [List.find?_cons_of_neg (by simpa using hdef)]
        exact if_neg hdef

theorem resolve_eq (env : Env) (m : Memory) (lo : Loaded) (name : List UInt8) :
    resolve env m lo name = symbolValue env m lo name := by
  have hfirst : lo.symtab = symbolAt lo 0 := (BitVec.add_zero lo.symtab).symm
  unfold resolve symbolValue
  rw [hfirst, ownSymbol_eq, List.range_eq_range']
  cases (List.range' 0 lo.nsyms.toNat).find? fun i => Defines m lo name i <;> rfl

/-! ### Entries -/

structure Entry where
  slot : Addr
  type : BitVec 32
  sym : Nat
deriving DecidableEq

def entryAt (m : Memory) (base r : Addr) : Entry :=
  ⟨slotAt m base r, m.word (r + 4) &&& 0xFF, (m.word (r + 4) >>> 8).toNat⟩

/-- The entries of a table, from the one at `r` on. -/
def entriesFrom (m : Memory) (base : Addr) : Nat → Addr → List Entry
  | 0, _ => []
  | n + 1, r => entryAt m base r :: entriesFrom m base n (r + 8)

/-- The entries of the relocation tables, in order. -/
def Image.entries (image : Image) (m : Memory) : List Entry :=
  image.relocationTables.flatMap fun t => entriesFrom m image.base t.2 t.1

/-- What an entry makes of the word it names, if there is a rule for its type and its symbol is
found. -/
def Entry.rule (env : Env) (m : Memory) (lo : Loaded) (e : Entry) :
    Option (BitVec 32 → BitVec 32) :=
  let val := symbolValue env m lo (nameOf m lo e.sym)
  if e.type = rArmRelative then some fun w => w + lo.base
  else if val = 0 then none
  else if e.type = rArmAbs32 then some fun w => w + val
  else if e.type = rArmGlobDat ∨ e.type = rArmJumpSlot then some fun _ => val
  else none

/-- The entry's word is changed by its rule. -/
def Entry.patch (rule : Entry → Option (BitVec 32 → BitVec 32)) (mem : Memory) (e : Entry) :
    Memory :=
  match rule e with
  | some f => mem.storeWord e.slot (f (mem.word e.slot))
  | none => mem

theorem relocateEntry_eq (env : Env) (lo : Loaded) (r : Addr) (l : Loader) :
    relocateEntry env lo r l =
      match (entryAt l.memory lo.base r).rule env l.memory lo with
      | some f => (l.relocate (slotAt l.memory lo.base r)
          (f (l.memory.word (slotAt l.memory lo.base r))), true)
      | none => (l, false) := by
  have hsymbol : lo.symtab + (16 : BitVec 32) * (l.memory.word (r + 4) >>> 8) =
      symbolAt lo (l.memory.word (r + 4) >>> 8).toNat := by
    rw [symbolAt, BitVec.ofNat_toNat, BitVec.setWidth_eq]
  unfold relocateEntry Entry.rule entryAt nameOf
  dsimp only
  rw [hsymbol, resolve_eq]
  generalize symbolValue env l.memory lo (l.memory.cstring (lo.strtab + l.memory.word
    (symbolAt lo (l.memory.word (r + 4) >>> 8).toNat))) = val
  generalize l.memory.word (r + 4) &&& 0xFF = type
  by_cases hrel : type = rArmRelative
  · rw [if_pos hrel, if_pos hrel]
  rw [if_neg hrel, if_neg hrel]
  by_cases hval : val = 0
  · rw [if_pos hval, if_pos hval]
    split <;> rfl
  rw [if_neg hval, if_neg hval]
  by_cases habs : type = rArmAbs32
  · rw [if_pos (.inr (.inr habs)), if_pos habs, if_pos habs]
  rw [if_neg habs, if_neg habs]
  by_cases hother : type = rArmGlobDat ∨ type = rArmJumpSlot
  · rw [if_pos (hother.imp_right .inl), if_pos hother]
  · have hnone : ¬ (type = rArmGlobDat ∨ type = rArmJumpSlot ∨ type = rArmAbs32) := by
      rintro (h | h | h)
      · exact hother (.inl h)
      · exact hother (.inr h)
      · exact habs h
    rw [if_neg hnone, if_neg hother]

/-! ### What the relocations read -/

/-- The addresses that are read while the library is relocated: its relocation tables, its symbols
and those that entries name, and their names. -/
def Image.metadata (image : Image) (m : Memory) : List Addr :=
  (image.relocationTables.flatMap fun t =>
    (List.range (8 * t.2)).map fun j => t.1 + BitVec.ofNat 32 j) ++
  (List.range (image.loaded m).nsyms.toNat ++ (image.entries m).map Entry.sym).flatMap fun i =>
    ((List.range 16).map fun j => symbolAt (image.loaded m) i + BitVec.ofNat 32 j) ++
    (List.range ((nameOf m (image.loaded m) i).length + 1)).map fun j =>
      (image.loaded m).strtab + m.word (symbolAt (image.loaded m) i) + BitVec.ofNat 32 j

/-- The entry's word has none of the addresses. -/
def Entry.Spares (e : Entry) (xs : List Addr) : Prop := ∀ x ∈ xs, ¬ Covers e.slot 4 x

instance (e : Entry) (xs : List Addr) : Decidable (e.Spares xs) :=
  List.decidableBAll (fun x => ¬ Covers e.slot 4 x) xs

/-- No entry names a byte of the tables, the symbols or the names. -/
def Image.WellFormed (image : Image) (m : Memory) : Prop :=
  ∀ e ∈ image.entries m, e.Spares (image.metadata m)

instance (image : Image) (m : Memory) : Decidable (image.WellFormed m) :=
  List.decidableBAll (fun e : Entry => e.Spares (image.metadata m)) (image.entries m)

/-- The memory still has the metadata of the image. -/
def Image.Agrees (image : Image) (m mem : Memory) : Prop := ∀ x ∈ image.metadata m, mem x = m x

section

variable {image : Image} {m mem : Memory}

theorem mem_metadata_of_symbol {i j : Nat}
    (hi : i < (image.loaded m).nsyms.toNat ∨ ∃ e ∈ image.entries m, e.sym = i) (hj : j < 16) :
    symbolAt (image.loaded m) i + BitVec.ofNat 32 j ∈ image.metadata m := by
  refine List.mem_append_right _ (List.mem_flatMap.2 ⟨i, ?_, ?_⟩)
  · rw [List.mem_append, List.mem_range, List.mem_map]
    exact hi
  · exact List.mem_append_left _ (List.mem_map.2 ⟨j, List.mem_range.2 hj, rfl⟩)

theorem mem_metadata_of_name {i j : Nat}
    (hi : i < (image.loaded m).nsyms.toNat ∨ ∃ e ∈ image.entries m, e.sym = i)
    (hj : j ≤ (nameOf m (image.loaded m) i).length) :
    (image.loaded m).strtab + m.word (symbolAt (image.loaded m) i) + BitVec.ofNat 32 j ∈
      image.metadata m := by
  refine List.mem_append_right _ (List.mem_flatMap.2 ⟨i, ?_, ?_⟩)
  · rw [List.mem_append, List.mem_range, List.mem_map]
    exact hi
  · exact List.mem_append_right _
      (List.mem_map.2 ⟨j, List.mem_range.2 (Nat.lt_succ_of_le hj), rfl⟩)

theorem mem_metadata_of_table {t : Addr × Nat} (ht : t ∈ image.relocationTables) {j : Nat}
    (hj : j < 8 * t.2) : t.1 + BitVec.ofNat 32 j ∈ image.metadata m :=
  List.mem_append_left _
    (List.mem_flatMap.2 ⟨t, ht, List.mem_map.2 ⟨j, List.mem_range.2 hj, rfl⟩⟩)

theorem add_ofNat (a : Addr) (i j : Nat) :
    a + BitVec.ofNat 32 i + BitVec.ofNat 32 j = a + BitVec.ofNat 32 (i + j) := by
  rw [BitVec.ofNat_add, BitVec.add_assoc]

theorem nameOf_agrees (h : image.Agrees m mem) {i : Nat}
    (hi : i < (image.loaded m).nsyms.toNat ∨ ∃ e ∈ image.entries m, e.sym = i) :
    nameOf mem (image.loaded m) i = nameOf m (image.loaded m) i := by
  have hword : mem.word (symbolAt (image.loaded m) i) = m.word (symbolAt (image.loaded m) i) :=
    word_congr fun k hk => h _ (mem_metadata_of_symbol hi (by omega))
  unfold nameOf
  rw [hword]
  exact cstring_congr fun k hk => h _ (mem_metadata_of_name hi hk)

theorem symbol_word_agrees (h : image.Agrees m mem) {i : Nat}
    (hi : i < (image.loaded m).nsyms.toNat) :
    mem.word (symbolAt (image.loaded m) i + 4) = m.word (symbolAt (image.loaded m) i + 4) := by
  apply word_congr
  intro k hk
  rw [show (4 : Addr) = BitVec.ofNat 32 4 from rfl, add_ofNat]
  exact h _ (mem_metadata_of_symbol (.inl hi) (by omega))

theorem defines_agrees (h : image.Agrees m mem) (name : List UInt8) {i : Nat}
    (hi : i < (image.loaded m).nsyms.toNat) :
    Defines mem (image.loaded m) name i ↔ Defines m (image.loaded m) name i := by
  have hhalf : mem.half (symbolAt (image.loaded m) i + 14) =
      m.half (symbolAt (image.loaded m) i + 14) := by
    apply half_congr
    intro k hk
    rw [show (14 : Addr) = BitVec.ofNat 32 14 from rfl, add_ofNat]
    exact h _ (mem_metadata_of_symbol (.inl hi) (by omega))
  unfold Defines
  rw [hhalf, symbol_word_agrees h hi, nameOf_agrees h (.inl hi)]

theorem symbolValue_agrees (h : image.Agrees m mem) (env : Env) (name : List UInt8) :
    symbolValue env mem (image.loaded m) name = symbolValue env m (image.loaded m) name := by
  have hfind : ((List.range (image.loaded m).nsyms.toNat).find? fun i =>
      Defines mem (image.loaded m) name i) =
        (List.range (image.loaded m).nsyms.toNat).find? fun i =>
          Defines m (image.loaded m) name i :=
    List.find?_congr fun i hi =>
      decide_eq_decide.2 (defines_agrees h name (List.mem_range.1 hi))
  unfold symbolValue
  rw [hfind]
  split
  · rename_i i hi
    rw [symbol_word_agrees h (List.mem_range.1 (List.mem_of_find?_eq_some hi))]
  · rfl

theorem rule_agrees (h : image.Agrees m mem) (env : Env) {e : Entry} (he : e ∈ image.entries m) :
    e.rule env mem (image.loaded m) = e.rule env m (image.loaded m) := by
  unfold Entry.rule
  rw [nameOf_agrees h (.inr ⟨e, he, rfl⟩), symbolValue_agrees h]

theorem entryAt_agrees (h : image.Agrees m mem) {r : Addr}
    (hr : ∀ j < 8, r + BitVec.ofNat 32 j ∈ image.metadata m) (base : Addr) :
    entryAt mem base r = entryAt m base r := by
  have hslot : mem.word r = m.word r := word_congr fun k hk => h _ (hr k (by omega))
  have hinfo : mem.word (r + 4) = m.word (r + 4) := by
    apply word_congr
    intro k hk
    rw [show (4 : Addr) = BitVec.ofNat 32 4 from rfl, add_ofNat]
    exact h _ (hr (4 + k) (by omega))
  unfold entryAt slotAt
  rw [hslot, hinfo]

/-! ### The loops -/

/-- The rules of the image's entries, with the symbols as the segments were copied. -/
def Image.rule (env : Env) (image : Image) (m : Memory) (e : Entry) :
    Option (BitVec 32 → BitVec 32) :=
  e.rule env m (image.loaded m)

/-- The words of the entries are changed by their rules, one after the other. -/
def Image.patchAll (env : Env) (image : Image) (m : Memory) (es : List Entry) (mem : Memory) :
    Memory :=
  es.foldl (Entry.patch (image.rule env m)) mem

variable (env : Env) (hwell : image.WellFormed m)

include hwell

theorem patch_agrees {e : Entry} (he : e ∈ image.entries m) (h : image.Agrees m mem) :
    image.Agrees m (e.patch (image.rule env m) mem) := by
  intro x hx
  unfold Entry.patch
  cases image.rule env m e with
  | some f => exact (storeWord_of_not_covers (hwell e he x hx)).trans (h x hx)
  | none => exact h x hx

theorem patchAll_agrees {es : List Entry} (hes : ∀ e ∈ es, e ∈ image.entries m)
    (h : image.Agrees m mem) : image.Agrees m (image.patchAll env m es mem) := by
  induction es generalizing mem with
  | nil => exact h
  | cons e es ih =>
      obtain ⟨he, hrest⟩ := List.forall_mem_cons.1 hes
      exact ih hrest (patch_agrees env hwell he h)

theorem relocateEntries_agrees {n : Nat} {r : Addr} {l : Loader} (h : image.Agrees m l.memory)
    (hes : ∀ e ∈ entriesFrom m image.base n r, e ∈ image.entries m)
    (htable : ∀ j < 8 * n, r + BitVec.ofNat 32 j ∈ image.metadata m) :
    ((∀ e ∈ entriesFrom m image.base n r, image.rule env m e ≠ none) →
      relocateEntries env (image.loaded m) n r l =
        ({ l with
            memory := image.patchAll env m (entriesFrom m image.base n r) l.memory
            relocated := l.relocated ++ (entriesFrom m image.base n r).map Entry.slot },
          true)) ∧
    ((∃ e ∈ entriesFrom m image.base n r, image.rule env m e = none) →
      (relocateEntries env (image.loaded m) n r l).2 = false) := by
  induction n generalizing r l with
  | zero =>
      constructor
      · intro _
        simp [relocateEntries, entriesFrom, Image.patchAll]
      · rintro ⟨e, he, -⟩
        exact absurd he List.not_mem_nil
  | succ n ih =>
      obtain ⟨he, hrest⟩ := List.forall_mem_cons.1 hes
      have hentry : entryAt l.memory image.base r = entryAt m image.base r :=
        entryAt_agrees h (fun j hj => htable j (by omega)) image.base
      have hslot : slotAt l.memory image.base r = (entryAt m image.base r).slot :=
        congrArg Entry.slot hentry
      have hstep : relocateEntry env (image.loaded m) r l = _ := relocateEntry_eq ..
      have hbase : (image.loaded m).base = image.base := rfl
      rw [hbase, hentry, rule_agrees h env he, hslot] at hstep
      unfold relocateEntries
      rw [hstep]
      have hnext : ∀ j, r + 8 + BitVec.ofNat 32 j = r + BitVec.ofNat 32 (8 + j) := by
        intro j
        rw [← add_ofNat]
        rfl
      cases hrule : (entryAt m image.base r).rule env m (image.loaded m) with
      | none =>
          refine ⟨fun hall => ?_, fun _ => rfl⟩
          exact absurd hrule (List.forall_mem_cons.1 hall).1
      | some f =>
          have hpatched : (entryAt m image.base r).patch (image.rule env m) l.memory =
              l.memory.storeWord (entryAt m image.base r).slot
                (f (l.memory.word (entryAt m image.base r).slot)) := by
            unfold Entry.patch Image.rule
            rw [hrule]
          have hkept : image.Agrees m (l.relocate (entryAt m image.base r).slot
              (f (l.memory.word (entryAt m image.base r).slot))).memory := by
            have hone := patch_agrees env hwell he h
            rwa [hpatched] at hone
          obtain ⟨hgood, hbad⟩ := ih hkept hrest fun j hj => by
            rw [hnext]
            exact htable (8 + j) (by omega)
          constructor
          · intro hall
            have hrun := hgood (List.forall_mem_cons.1 hall).2
            apply hrun.trans
            unfold Image.patchAll
            rw [entriesFrom, List.foldl_cons, hpatched]
            simp [Loader.relocate]
          · rintro ⟨e, hmem, hnone⟩
            rcases List.mem_cons.1 hmem with rfl | hmem
            · exact absurd (hnone.symm.trans hrule) (Option.some_ne_none f).symm
            · exact hbad ⟨e, hmem, hnone⟩

/-- The entries of a pass. -/
def passEntries (m : Memory) (base r : Addr) (size : BitVec 32) : List Entry :=
  if r = 0 then [] else entriesFrom m base (size.toNat / 8) r

omit hwell in
theorem entries_eq (image : Image) (m : Memory) :
    image.entries m = passEntries m image.base image.tables.rel image.tables.relsz ++
      passEntries m image.base image.tables.jmprel image.tables.jmprelsz := by
  have hfilter : ∀ ts : List (Addr × Nat),
      ((ts.filter fun t => t.1 ≠ 0).flatMap fun t => entriesFrom m image.base t.2 t.1) =
        ts.flatMap fun t => if t.1 = 0 then [] else entriesFrom m image.base t.2 t.1 := by
    intro ts
    induction ts with
    | nil => rfl
    | cons t ts ih =>
        rw [List.flatMap_cons, ← ih]
        by_cases ht : t.1 = 0
        · rw [List.filter_cons_of_neg (by simpa using ht), if_pos ht, List.nil_append]
        · rw [List.filter_cons_of_pos (by simpa using ht), if_neg ht, List.flatMap_cons]
  apply (hfilter _).trans
  rw [List.flatMap_cons, List.flatMap_singleton]
  rfl

theorem relocatePass_agrees {r : Addr} {size : BitVec 32}
    (hpass : r ≠ 0 → (r, size.toNat / 8) ∈ image.relocationTables) {l : Loader}
    (h : image.Agrees m l.memory)
    (hes : ∀ e ∈ passEntries m image.base r size, e ∈ image.entries m) :
    ((∀ e ∈ passEntries m image.base r size, image.rule env m e ≠ none) →
      relocatePass env (image.loaded m) r size l =
        ({ l with
            memory := image.patchAll env m (passEntries m image.base r size) l.memory
            relocated := l.relocated ++ (passEntries m image.base r size).map Entry.slot },
          true)) ∧
    ((∃ e ∈ passEntries m image.base r size, image.rule env m e = none) →
      (relocatePass env (image.loaded m) r size l).2 = false) := by
  unfold relocatePass passEntries at *
  by_cases hr : r = 0
  · simp only [if_pos hr]
    refine ⟨fun _ => ?_, fun ⟨e, he, _⟩ => absurd he List.not_mem_nil⟩
    simp [Image.patchAll]
  · simp only [if_neg hr] at hes ⊢
    exact relocateEntries_agrees env hwell h hes
      fun j hj => mem_metadata_of_table (hpass hr) hj

end

/-- The two passes over a well-formed image succeed exactly when every entry has a rule, and then
the rules have been applied in the order of the entries. -/
theorem relocateImage_agrees (env : Env) {image : Image} {l : Loader}
    (hwell : image.WellFormed l.memory) :
    ((∀ e ∈ image.entries l.memory, image.rule env l.memory e ≠ none) →
      relocateImage env image l =
        ({ l with
            memory := image.patchAll env l.memory (image.entries l.memory) l.memory
            relocated := l.relocated ++ (image.entries l.memory).map Entry.slot }, true)) ∧
    ((∃ e ∈ image.entries l.memory, image.rule env l.memory e = none) →
      (relocateImage env image l).2 = false) := by
  have hsplit := entries_eq image l.memory
  have hleft : ∀ e ∈ passEntries l.memory image.base image.tables.rel image.tables.relsz,
      e ∈ image.entries l.memory := by
    intro e he
    rw [hsplit]
    exact List.mem_append_left _ he
  have hright : ∀ e ∈ passEntries l.memory image.base image.tables.jmprel image.tables.jmprelsz,
      e ∈ image.entries l.memory := by
    intro e he
    rw [hsplit]
    exact List.mem_append_right _ he
  obtain ⟨hgood, hbad⟩ := relocatePass_agrees env hwell (fun hr => List.mem_filter.2
    ⟨List.mem_cons_self, decide_eq_true hr⟩) (fun _ _ => rfl) hleft
  have hsecond := fun mem (hmem : image.Agrees l.memory mem) =>
    relocatePass_agrees (l := { l with
        memory := mem
        relocated := l.relocated ++ (passEntries l.memory image.base image.tables.rel
          image.tables.relsz).map Entry.slot }) env hwell (fun hr => List.mem_filter.2
      ⟨List.mem_cons_of_mem _ List.mem_cons_self, decide_eq_true hr⟩) hmem hright
  unfold relocateImage
  dsimp only
  by_cases hrules : ∀ e ∈ passEntries l.memory image.base image.tables.rel image.tables.relsz,
      image.rule env l.memory e ≠ none
  · rw [hgood hrules]
    obtain ⟨hgood', hbad'⟩ := hsecond _ (patchAll_agrees env hwell hleft fun _ _ => rfl)
    constructor
    · intro hall
      dsimp only
      rw [hgood' fun e he => hall e (hright e he), hsplit]
      simp [Image.patchAll, List.foldl_append]
    · intro ⟨e, he, hnone⟩
      rw [hsplit] at he
      rcases List.mem_append.1 he with he | he
      · exact absurd hnone (hrules e he)
      · exact hbad' ⟨e, he, hnone⟩
  · have hnone : ∃ e ∈ passEntries l.memory image.base image.tables.rel image.tables.relsz,
        image.rule env l.memory e = none := by
      by_contra hno
      exact hrules fun e he hrule => hno ⟨e, he, hrule⟩
    have hfirst := hbad hnone
    obtain ⟨l', hpass⟩ : ∃ l', relocatePass env (image.loaded l.memory) image.tables.rel
        image.tables.relsz l = (l', false) := ⟨_, Prod.ext rfl hfirst⟩
    rw [hpass]
    exact ⟨fun hall => absurd (fun e he => hall e (hleft e he)) hrules, fun _ => rfl⟩

/-! ### The relocated image -/

/-- Two words share no byte. -/
def Apart (a b : Addr) : Prop := ∀ k < 4, ¬ Covers a 4 (b + BitVec.ofNat 32 k)

instance (a b : Addr) : Decidable (Apart a b) := Nat.decidableBallLT 4 _

theorem patchAll_of_not_covers (env : Env) (image : Image) (m : Memory) {es : List Entry} {x : Addr}
    (hx : ∀ e ∈ es, ¬ Covers e.slot 4 x) (mem : Memory) :
    image.patchAll env m es mem x = mem x := by
  induction es generalizing mem with
  | nil => rfl
  | cons e es ih =>
      obtain ⟨he, hrest⟩ := List.forall_mem_cons.1 hx
      apply (ih hrest _).trans
      unfold Entry.patch
      cases image.rule env m e with
      | some f => exact storeWord_of_not_covers he
      | none => rfl

theorem patchAll_word_of_apart (env : Env) (image : Image) (m : Memory) {es : List Entry}
    {slot : Addr} (h : ∀ e ∈ es, Apart e.slot slot) (mem : Memory) :
    (image.patchAll env m es mem).word slot = mem.word slot :=
  word_congr fun k hk => patchAll_of_not_covers env image m (fun e he => h e he k hk) mem

/-- The word of an entry that shares it with no other. -/
theorem patchAll_word (env : Env) (image : Image) (m : Memory) {front back : List Entry} {e : Entry}
    {f : BitVec 32 → BitVec 32} (hrule : image.rule env m e = some f)
    (hfront : ∀ other ∈ front, Apart other.slot e.slot)
    (hback : ∀ other ∈ back, Apart other.slot e.slot) (mem : Memory) :
    (image.patchAll env m (front ++ e :: back) mem).word e.slot = f (mem.word e.slot) := by
  have hsplit : image.patchAll env m (front ++ e :: back) mem =
      image.patchAll env m back
        (e.patch (image.rule env m) (image.patchAll env m front mem)) := by
    unfold Image.patchAll
    rw [List.foldl_append, List.foldl_cons]
  rw [hsplit, patchAll_word_of_apart env image m hback]
  unfold Entry.patch
  rw [hrule]
  dsimp only
  rw [word_storeWord, patchAll_word_of_apart env image m hfront]

/-- What the relocations have come to: every entry has a rule, its word was stored once and in its
turn, the memory is that of the rules applied in the order of the entries, a byte that no entry
names is as it was, and a word that one entry names is what its rule makes of the word before. -/
structure Relocated (env : Env) (image : Image) (m : Memory) (slots : List Addr) (mem : Memory) :
    Prop where
  rules : ∀ e ∈ image.entries m, image.rule env m e ≠ none
  slots_eq : slots = (image.entries m).map Entry.slot
  memory_eq : mem = image.patchAll env m (image.entries m) m
  spared : ∀ x, (∀ e ∈ image.entries m, ¬ Covers e.slot 4 x) → mem x = m x
  word_eq : ∀ front e back f, image.entries m = front ++ e :: back → image.rule env m e = some f →
    (∀ other ∈ front, Apart other.slot e.slot) → (∀ other ∈ back, Apart other.slot e.slot) →
      mem.word e.slot = f (m.word e.slot)

theorem relocated_patchAll {env : Env} {image : Image} {m : Memory}
    (h : ∀ e ∈ image.entries m, image.rule env m e ≠ none) :
    Relocated env image m ((image.entries m).map Entry.slot)
      (image.patchAll env m (image.entries m) m) where
  rules := h
  slots_eq := rfl
  memory_eq := rfl
  spared := fun _ hx => patchAll_of_not_covers env image m hx m
  word_eq := by
    intro front e back f hsplit hrule hfront hback
    rw [hsplit]
    exact patchAll_word env image m hrule hfront hback m

def libraryImage : Image :=
  ⟨libraryPhs, 0x40000000, ⟨0x400000A4, 0x400000A4, 0x400000A4, 0x400000AC, 8, 0, 0, 0, 0⟩⟩

/-- The loader with the segments of the library copied. -/
def libraryCopied : Loader :=
  (mapImage (process (library 0x30)) libraryPhs (loadBase libraryPhs 0x40000000)
    (openMapping (process (library 0x30)) []).1).1

end LineageA1000.Elf
