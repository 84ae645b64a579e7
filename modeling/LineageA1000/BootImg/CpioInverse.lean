import LineageA1000.BootImg.CpioArchive
import Mathlib.Data.List.Forall2

/-!
# Building and parsing are inverse

Parsing what was built gives the items back, up to the size fields. Building what was parsed gives
the archive back exactly when the archive is written as the builder writes: eight capital digits for
the size of what is there, zeros behind the name and behind the
data. -/

namespace LineageA1000.BootImg

open Bytes

/-! ### Entries as the builder writes them -/

/-- The first position from `n` on that a multiple of four has. -/
def up4 (n : Nat) : Nat := (n + 3) / 4 * 4

section Entry

variable (buf : Bytes) (q : Nat) (it : Item)

/-- Where the name of an entry at `q` ends. -/
def nameEnd : Nat := q + 110 + it.name.length

def dataStart : Nat := up4 (nameEnd q it + 1)

def dataEnd : Nat := dataStart q it + it.data.length

def entryEnd : Nat := up4 (dataEnd q it)

/-- The entry at `q` announces the sizes it has, in capital digits, and is padded with zeros. -/
structure CleanEntry : Prop where
  dataField : it.hdr.slice 54 62 = fmt08X it.data.length
  nameField : it.hdr.slice 94 102 = fmt08X (it.name.length + 1)
  namePad : buf.slice (nameEnd q it) (dataStart q it) = zeros (dataStart q it - nameEnd q it)
  dataPad : buf.slice (dataEnd q it) (entryEnd q it) = zeros (entryEnd q it - dataEnd q it)

end Entry

def CleanFrom (buf : Bytes) : Nat → List Item → Prop
  | _, [] => True
  | q, it :: items => CleanEntry buf q it ∧ CleanFrom buf (entryEnd q it) items

instance (buf : Bytes) (q : Nat) (it : Item) : Decidable (CleanEntry buf q it) :=
  decidable_of_iff
    (it.hdr.slice 54 62 = fmt08X it.data.length ∧
      it.hdr.slice 94 102 = fmt08X (it.name.length + 1) ∧
      buf.slice (nameEnd q it) (dataStart q it) = zeros (dataStart q it - nameEnd q it) ∧
      buf.slice (dataEnd q it) (entryEnd q it) = zeros (entryEnd q it - dataEnd q it))
    ⟨fun ⟨h₁, h₂, h₃, h₄⟩ => ⟨h₁, h₂, h₃, h₄⟩, fun ⟨h₁, h₂, h₃, h₄⟩ => ⟨h₁, h₂, h₃, h₄⟩⟩

instance decidableCleanFrom (buf : Bytes) : ∀ (q : Nat) (items : List Item),
    Decidable (CleanFrom buf q items)
  | _, [] => inferInstanceAs (Decidable True)
  | q, it :: items => @instDecidableAnd _ _ _ (decidableCleanFrom buf (entryEnd q it) items)

theorem le_up4 (n : Nat) : n ≤ up4 n := by
  rw [up4]
  omega

theorem dvd_up4 (n : Nat) : 4 ∣ up4 n := Nat.dvd_mul_left ..

theorem align4_natCast (n : Nat) : align4 (n : Int) = (up4 n : Nat) := by
  rw [align4, up4]
  omega

/-- The fill of `pad4` ends at the next multiple of four. -/
theorem up4_of_dvd {q : Nat} (hq : 4 ∣ q) (n : Nat) : up4 (q + n) = q + n + (4 - n % 4) % 4 := by
  rw [up4]
  omega

/-! ### Reading an entry back as its block -/

theorem lt_of_slice_eq_fmt08X {xs : Bytes} {a n : Nat} (h : xs.slice a (a + 8) = fmt08X n) :
    n < 2 ^ 32 := by
  have hlen := congrArg List.length h
  have hwidth := eight_le_hexWidth n
  rw [length_slice, length_fmt08X] at hlen
  exact hexWidth_eq_eight_iff.1 (by omega)

theorem sizeField_of_fmt08X {hdr : Bytes} {a n : Nat} (h : hdr.slice a (a + 8) = fmt08X n) :
    sizeField hdr a (a + 8) = .ok (n : Int) := by
  have hn := lt_of_slice_eq_fmt08X h
  rw [sizeField, h, fmt08X_of_lt hn, pyInt16_hexFixed hn]

theorem slice_append_slice (xs : Bytes) {a b c : Nat} (hab : a ≤ b) (hbc : b ≤ c) :
    xs.slice a b ++ xs.slice b c = xs.slice a c := by
  have hsplit := List.take_append_drop (b - a) ((xs.take c).drop a)
  rw [List.take_drop, List.drop_drop, Nat.add_sub_cancel' hab, List.take_take,
    min_eq_left hbc] at hsplit
  exact hsplit

/-- A pass that reads an item goes on behind the data that its fields announce. -/
theorem cpioStep_next {buf : Bytes} {q q' nsz fsz : Int} {it : Item}
    (hstep : cpioStep buf q = .ok (some (it, q'))) (hnsz : sizeField it.hdr 94 102 = .ok nsz)
    (hfsz : sizeField it.hdr 54 62 = .ok fsz) : q' = align4 (align4 (q + 110 + nsz) + fsz) := by
  simp only [cpioStep] at hstep
  split at hstep
  · cases hstep
  split at hstep
  · cases hstep
  obtain ⟨nsz', hnsz', hstep⟩ := bind_eq_ok.1 hstep
  obtain ⟨fsz', hfsz', hstep⟩ := bind_eq_ok.1 hstep
  cases hstep
  rw [hnsz, Except.ok.injEq] at hnsz'
  rw [hfsz, Except.ok.injEq] at hfsz'
  rw [hnsz', hfsz']

theorem Item.sizedHdr_eq {it : Item}
    (hdata : it.hdr.slice 54 62 = fmt08X it.data.length)
    (hname : it.hdr.slice 94 102 = fmt08X (it.name.length + 1)) : it.sizedHdr = it.hdr := by
  rw [Item.sizedHdr, ← hdata, setSlice_slice _ (by decide), ← hname, setSlice_slice _ (by decide)]

/-- The parts of an item with clean size fields, as slices at natural positions. -/
theorem slices_of_cpioStep {buf : Bytes} {q : Nat} {q' : Int} {it : Item}
    (hstep : cpioStep buf q = .ok (some (it, q'))) (hclean : CleanEntry buf q it) :
    q' = (entryEnd q it : Nat) ∧ q + 110 ≤ buf.length ∧ it.hdr = buf.slice q (q + 110) ∧
      it.name = buf.slice (q + 110) (nameEnd q it) ∧
      it.data = buf.slice (dataStart q it) (dataEnd q it) := by
  have hnsz := sizeField_of_fmt08X hclean.nameField
  have hfsz := sizeField_of_fmt08X hclean.dataField
  have hnext := cpioStep_next hstep hnsz hfsz
  obtain ⟨hfits, -, hhdr, nsz, fsz, hnsz', hfsz', hname, hdata⟩ := cpioStep_eq_some hstep
  rw [hnsz, Except.ok.injEq] at hnsz'
  rw [hfsz, Except.ok.injEq] at hfsz'
  subst hnsz' hfsz'
  have hstart : align4 ((q : Int) + 110 + ((it.name.length + 1 : Nat) : Int)) =
      (dataStart q it : Nat) := by
    rw [dataStart, nameEnd, ← align4_natCast]
    congr 1
  have hend : ((dataStart q it : Nat) : Int) + (it.data.length : Int) = (dataEnd q it : Nat) := by
    rw [dataEnd, Nat.cast_add]
  rw [hstart, hend, align4_natCast] at hnext
  refine ⟨hnext, by omega, ?_, ?_, ?_⟩
  · have hcast := pySlice_natCast buf q (q + 110)
    rw [Nat.cast_add, Nat.cast_ofNat] at hcast
    rw [hhdr, hcast]
  · have hcast := pySlice_natCast buf (q + 110) (nameEnd q it)
    have hstop : (q : Int) + 110 + ((it.name.length + 1 : Nat) : Int) - 1 =
        (nameEnd q it : Nat) := by
      rw [nameEnd]
      omega
    rw [Nat.cast_add, Nat.cast_ofNat] at hcast
    rw [hstop] at hname
    rw [← hcast, ← hname]
  · rw [hstart, hend, pySlice_natCast] at hdata
    exact hdata

/-- A clean entry is its item's block, and the parser goes on right behind it. -/
theorem block_of_clean {buf : Bytes} {q : Nat} {q' : Int} {it : Item} (hq : 4 ∣ q)
    (hstep : cpioStep buf q = .ok (some (it, q'))) (hclean : CleanEntry buf q it) :
    q' = (entryEnd q it : Nat) ∧ entryEnd q it ≤ buf.length ∧
      buf.slice q (entryEnd q it) = it.block := by
  obtain ⟨hnext, hfits, hhdr, hname, hdata⟩ := slices_of_cpioStep hstep hclean
  have hlenHdr : it.hdr.length = 110 := by
    rw [hhdr, length_slice]
    omega
  have hlenName := congrArg List.length hclean.namePad
  have hlenData := congrArg List.length hclean.dataPad
  have hlen := congrArg List.length hdata
  rw [length_slice, length_zeros] at hlenName hlenData
  rw [length_slice] at hlen
  have hnameEnd : nameEnd q it < dataStart q it := le_up4 _
  have hdataEnd : dataEnd q it = dataStart q it + it.data.length := rfl
  have hle : dataEnd q it ≤ entryEnd q it := le_up4 _
  refine ⟨hnext, by omega, ?_⟩
  have hpadName : dataStart q it - nameEnd q it =
      1 + (4 - (it.sizedHdr.length + it.name.length + 1) % 4) % 4 := by
    rw [Item.sizedHdr_eq hclean.dataField hclean.nameField, hlenHdr, dataStart, nameEnd, up4]
    omega
  have hpadData : entryEnd q it - dataEnd q it = (4 - it.data.length % 4) % 4 := by
    have hdvd : 4 ∣ dataStart q it := dvd_up4 _
    rw [entryEnd, dataEnd, up4_of_dvd hdvd, Nat.add_sub_cancel_left]
  have hzeros (n : Nat) : [0] ++ zeros n = zeros (1 + n) := zeros_append_zeros 1 n
  rw [it.block_eq, hzeros, ← hpadName, ← hpadData, ← hclean.namePad, ← hclean.dataPad,
    Item.sizedHdr_eq hclean.dataField hclean.nameField]
  have hnameStart : q + 110 ≤ nameEnd q it := Nat.le_add_right _ _
  have hdataLe : dataStart q it ≤ dataEnd q it := Nat.le_add_right _ _
  have hrest := slice_append_slice buf hdataLe hle
  have hrest' := slice_append_slice buf hnameEnd.le (hdataLe.trans hle)
  have hrest'' := slice_append_slice buf hnameStart (hnameEnd.le.trans (hdataLe.trans hle))
  rw [← hdata] at hrest
  rw [← hname] at hrest''
  rw [hrest, hrest', hrest'', hhdr]
  refine (slice_append_slice buf ?_ ?_).symm
  · exact Nat.le_add_right _ _
  · exact hnameStart.trans (hnameEnd.le.trans (hdataLe.trans hle))

theorem le_entryEnd (q : Nat) (it : Item) : q ≤ entryEnd q it :=
  calc q ≤ nameEnd q it + 1 := by
        rw [nameEnd]
        omega
    _ ≤ dataStart q it := le_up4 _
    _ ≤ dataEnd q it := Nat.le_add_right _ _
    _ ≤ entryEnd q it := le_up4 _

theorem drop_eq_of_cleanEntry {buf : Bytes} {q : Nat} {q' : Int} {it : Item} (hq : 4 ∣ q)
    (hstep : cpioStep buf q = .ok (some (it, q'))) (hclean : CleanEntry buf q it) :
    buf.drop q = it.block ++ buf.drop (entryEnd q it) := by
  obtain ⟨-, hle, hslice⟩ := block_of_clean hq hstep hclean
  have hsplit := slice_append_slice buf (le_entryEnd q it) hle
  rw [slice_eq_drop le_rfl, slice_eq_drop le_rfl, hslice] at hsplit
  exact hsplit.symm

theorem blocks_cons (it : Item) (items : List Item) :
    blocks (it :: items) = it.block ++ blocks items := List.flatMap_cons

/-- What was read from clean entries only is, block by block, what stands in the archive. -/
theorem drop_eq_of_clean {buf tail : Bytes} {p : Int} {items : List Item}
    (hparses : Parses buf p items tail) {q : Nat} (hp : p = q) (hq : 4 ∣ q)
    (hclean : CleanFrom buf q items) : buf.drop q = blocks items ++ tail := by
  induction hparses generalizing q with
  | stop hstep =>
      rw [hp, pyDrop_natCast]
      exact (List.nil_append _).symm
  | trailer hstep hname =>
      rw [hp] at hstep
      rw [drop_eq_of_cleanEntry hq hstep hclean.1, (block_of_clean hq hstep hclean.1).1,
        pyDrop_natCast, blocks, List.flatMap_singleton]
  | next hstep hname hrest ih =>
      rw [hp] at hstep
      rw [drop_eq_of_cleanEntry hq hstep hclean.1,
        ih (block_of_clean hq hstep hclean.1).1 (dvd_up4 _) hclean.2, blocks_cons,
        List.append_assoc]

/-! ### Blocks are clean -/

/-- A block of a well-formed item with correct size fields is a clean entry. -/
theorem clean_of_block {pre : Bytes} {it : Item} (hpre : 4 ∣ pre.length) (hit : it.WellFormed)
    (hsized : it.sizedHdr = it.hdr) (rest : Bytes) :
    CleanEntry (pre ++ (it.block ++ rest)) pre.length it ∧
      entryEnd pre.length it = (pre ++ it.block).length := by
  have hlenHdr := hit.hdrLength
  have hname := it.slice_sizedHdr_name hlenHdr
  have hdata := it.slice_sizedHdr_data hlenHdr
  have hwidth (n : Nat) (hn : n < 2 ^ 32) : (fmt08X n).slice 0 8 = fmt08X n := by
    have hfull := slice_zero_length (hexFixed 8 n)
    rw [length_hexFixed] at hfull
    rw [fmt08X_of_lt hn, hfull]
  rw [hsized, hwidth _ hit.nameSize] at hname
  rw [hsized, hwidth _ hit.dataSize] at hdata
  have hblock := it.block_eq
  rw [hsized, hlenHdr] at hblock
  set a := (4 - (110 + it.name.length + 1) % 4) % 4 with ha
  set b := (4 - it.data.length % 4) % 4 with hb
  have hdvd : 4 ∣ dataStart pre.length it := dvd_up4 _
  have hstart : dataStart pre.length it = nameEnd pre.length it + (1 + a) := by
    rw [dataStart, nameEnd, up4]
    omega
  have hend : entryEnd pre.length it = dataEnd pre.length it + b := by
    rw [entryEnd, dataEnd, up4_of_dvd hdvd]
  have hlen : (pre ++ it.block).length = dataEnd pre.length it + b := by
    rw [hblock, dataEnd, hstart, nameEnd]
    simp only [List.length_append, List.length_singleton, length_zeros, hlenHdr]
    omega
  have hzeros : [0] ++ zeros a = zeros (1 + a) := zeros_append_zeros 1 a
  refine ⟨⟨hdata, hname, ?_, ?_⟩, hend.trans hlen.symm⟩
  · rw [hstart, Nat.add_sub_cancel_left, hblock, hzeros]
    have hbuf : pre ++ (it.hdr ++ (it.name ++ (zeros (1 + a) ++ (it.data ++ zeros b))) ++ rest) =
        (pre ++ it.hdr ++ it.name) ++ (zeros (1 + a) ++ (it.data ++ zeros b ++ rest)) := by
      simp only [List.append_assoc]
    rw [hbuf]
    apply slice_append_mid <;>
      simp only [nameEnd, List.length_append, length_zeros, hlenHdr]
  · rw [hend, Nat.add_sub_cancel_left, hblock, hzeros]
    have hbuf : pre ++ (it.hdr ++ (it.name ++ (zeros (1 + a) ++ (it.data ++ zeros b))) ++ rest) =
        (pre ++ it.hdr ++ it.name ++ zeros (1 + a) ++ it.data) ++ (zeros b ++ rest) := by
      simp only [List.append_assoc]
    rw [hbuf]
    apply slice_append_mid <;>
      simp only [dataEnd, hstart, nameEnd, List.length_append, length_zeros, hlenHdr]

theorem clean_of_blocks (pre : Bytes) {rest : Bytes} {items : List Item} (hpre : 4 ∣ pre.length)
    (hitems : ∀ it ∈ items, it.WellFormed ∧ it.sizedHdr = it.hdr) :
    CleanFrom (pre ++ (blocks items ++ rest)) pre.length items := by
  induction items generalizing pre with
  | nil => trivial
  | cons it items ih =>
      obtain ⟨⟨hwf, hsized⟩, htail⟩ := List.forall_mem_cons.1 hitems
      have hbuf : pre ++ (blocks (it :: items) ++ rest) =
          pre ++ (it.block ++ (blocks items ++ rest)) := by
        rw [blocks_cons, List.append_assoc]
      obtain ⟨hclean, hend⟩ := clean_of_block hpre hwf hsized (blocks items ++ rest)
      have hnext : 4 ∣ (pre ++ it.block).length := by
        rw [List.length_append]
        exact Nat.dvd_add hpre it.dvd_length_block
      have hrest := ih (pre ++ it.block) hnext htail
      rw [List.append_assoc] at hrest
      rw [hbuf]
      refine ⟨hclean, ?_⟩
      rw [hend]
      exact hrest

theorem sizedHdr_of_map_sized {items : List Item} (h : items.map Item.sized = items) :
    ∀ it ∈ items, it.sizedHdr = it.hdr := by
  intro it hit
  have hid : items.map Item.sized = items.map id := h.trans (List.map_id items).symm
  exact congrArg Item.hdr (List.map_inj_left.1 hid it hit)

/-- The rebuild of what was parsed is the archive itself exactly when its entries are clean. -/
theorem cpioBuild_eq_iff_clean {buf tail : Bytes} {items : List Item}
    (hparses : Parses buf 0 items tail) : cpioBuild items tail = buf ↔ CleanFrom buf 0 items := by
  constructor
  · intro hbuild
    rw [cpioBuild_eq] at hbuild
    obtain ⟨harch, hsized⟩ := archive_of_parses hparses [] (dvd_zero 4) rfl hbuild.symm
    rw [← hbuild]
    exact clean_of_blocks [] (dvd_zero 4) fun it hit =>
      ⟨harch.wellFormed it hit, sizedHdr_of_map_sized hsized it hit⟩
  · intro hclean
    rw [cpioBuild_eq, ← drop_eq_of_clean hparses rfl (dvd_zero 4) hclean, List.drop_zero]

/-! ### Both directions -/

/-- The two entries differ at most in the digits of the two size fields. -/
structure SameButSizes (it it' : Item) : Prop where
  name : it'.name = it.name
  data : it'.data = it.data
  hdrLength : it'.hdr.length = it.hdr.length
  hdr : ∀ i, ¬ (54 ≤ i ∧ i < 62) → ¬ (94 ≤ i ∧ i < 102) → it'.hdr[i]? = it.hdr[i]?

theorem sameButSizes_sized {it : Item} (hit : it.WellFormed) : SameButSizes it it.sized := by
  have hlen := hit.hdrLength
  have hdata : (fmt08X it.data.length).length = 8 := by
    rw [length_fmt08X, hexWidth_eq_eight_iff.2 hit.dataSize]
  have hname : (fmt08X (it.name.length + 1)).length = 8 := by
    rw [length_fmt08X, hexWidth_eq_eight_iff.2 hit.nameSize]
  have hinner : (it.hdr.setSlice 54 62 (fmt08X it.data.length)).length = 110 := by
    rw [length_setSlice _ (by decide) (by omega)]
    omega
  refine ⟨rfl, rfl, hit.length_sizedHdr.trans hlen.symm, fun i hi hi' => ?_⟩
  show it.sizedHdr[i]? = it.hdr[i]?
  rw [Item.sizedHdr, getElem?_setSlice (by omega) (by omega)]
  by_cases hbefore : i < 94
  · rw [if_pos hbefore, getElem?_setSlice (by omega) (by omega)]
    by_cases hfirst : i < 54
    · rw [if_pos hfirst]
    · rw [if_neg hfirst, if_neg (by omega)]
  · rw [if_neg hbefore, if_neg (by omega), getElem?_setSlice (by omega) (by omega),
      if_neg (by omega), if_neg (by omega)]

/-- `cpio_build` and `cpio_parse` are inverse: an archive of well-formed items is parsed into them
and its tail, with headers that differ at most in the sizes; and what was parsed from any archive is
built into the same bytes exactly when all its entries are clean. -/
theorem cpio_build_parse_inverse :
    (∀ (items : List Item) (tail : Bytes), Archive items tail →
      ∃ fuel read, cpioParse fuel (cpioBuild items tail) = some (.ok (read, tail)) ∧
        List.Forall₂ SameButSizes items read) ∧
    (∀ (buf : Bytes) (fuel : Nat) (items : List Item) (tail : Bytes),
      cpioParse fuel buf = some (.ok (items, tail)) →
        (cpioBuild items tail = buf ↔ CleanFrom buf 0 items)) := by
  constructor
  · intro items tail harch
    obtain ⟨fuel, hloop⟩ := harch.parses.cpioLoop []
    refine ⟨fuel, items.map Item.sized, hloop, ?_⟩
    rw [List.forall₂_map_right_iff, List.forall₂_same]
    exact fun it hit => sameButSizes_sized (harch.wellFormed it hit)
  · intro buf fuel items tail hparse
    obtain ⟨rest, hitems, hparses⟩ := parses_of_cpioLoop hparse
    rw [List.nil_append] at hitems
    rw [hitems]
    exact cpioBuild_eq_iff_clean hparses

/-- A newc header with the given size fields, all others zero. -/
def newcHdr (dataField nameField : Bytes) : Bytes :=
  cpioMagic ++ List.replicate 48 0x30 ++ dataField ++ List.replicate 32 0x30 ++ nameField ++
    List.replicate 8 0x30

/-- The archive of a trailer alone, whose name size is written in small letters. -/
def smallLetters : Bytes :=
  newcHdr (List.replicate 8 0x30) (List.replicate 7 0x30 ++ [0x62]) ++ trailerName ++ zeros 4

theorem cpio_build_parse_inverse_trailer :
    (∃ fuel read, cpioParse fuel (cpioBuild [⟨newcHdr (List.replicate 8 0x30)
        (List.replicate 8 0x30), trailerName, []⟩] [1]) = some (.ok (read, [1])) ∧
      List.Forall₂ SameButSizes [⟨newcHdr (List.replicate 8 0x30) (List.replicate 8 0x30),
        trailerName, []⟩] read) ∧
    (cpioBuild [⟨newcHdr (List.replicate 8 0x30) (List.replicate 7 0x30 ++ [0x62]), trailerName,
        []⟩] [] = smallLetters ↔
      CleanFrom smallLetters 0 [⟨newcHdr (List.replicate 8 0x30) (List.replicate 7 0x30 ++ [0x62]),
        trailerName, []⟩]) := by
  constructor
  · refine cpio_build_parse_inverse.1 _ _ ⟨fun it hit => ?_, Or.inl ⟨[], _, rfl, rfl, ?_⟩⟩
    · rw [List.mem_singleton.1 hit]
      exact ⟨by decide, by decide, by decide, by decide⟩
    · exact fun it hit => absurd hit List.not_mem_nil
  · exact cpio_build_parse_inverse.2 smallLetters 1 _ [] (by decide +kernel)

/-- A well-formed archive with zero padding that the unchanged rebuild does not reproduce. -/
theorem rebuild_small_letters :
    ∃ items tail, cpioParse 1 smallLetters = some (.ok (items, tail)) ∧
      cpioBuild items tail ≠ smallLetters := by
  refine ⟨[⟨newcHdr (List.replicate 8 0x30) (List.replicate 7 0x30 ++ [0x62]), trailerName, []⟩],
    [], ?_, ?_⟩ <;> decide +kernel

end LineageA1000.BootImg
