import LineageA1000.BootImg.Cpio

/-!
# One item, one block

What `cpio_build` writes for an item is a block of a length divisible by four, whatever comes before
it. The parser reads a block back as the item with its size fields rewritten, and conversely an item
that was read where its own block stands has correct size fields, so its block is what was read.
-/

namespace LineageA1000.BootImg

open Bytes

/-! ### Blocks -/

/-- What `cpio_build` writes for one item. -/
def Item.block (it : Item) : Bytes := pad4 (pad4 (it.sizedHdr ++ it.name ++ [0]) ++ it.data)

def blocks (items : List Item) : Bytes := items.flatMap Item.block

theorem dvd_length_pad4 (xs : Bytes) : 4 ∣ (pad4 xs).length := by
  rw [pad4, List.length_append, length_zeros]
  omega

theorem pad4_append {xs : Bytes} (hxs : 4 ∣ xs.length) (ys : Bytes) :
    pad4 (xs ++ ys) = xs ++ pad4 ys := by
  have hmod : (xs ++ ys).length % 4 = ys.length % 4 := by
    rw [List.length_append]
    omega
  rw [pad4, pad4, hmod, List.append_assoc]

theorem Item.dvd_length_block (it : Item) : 4 ∣ it.block.length := dvd_length_pad4 _

theorem dvd_length_blocks (items : List Item) : 4 ∣ (blocks items).length := by
  induction items with
  | nil => exact dvd_zero 4
  | cons it items ih =>
      rw [blocks, List.flatMap_cons, List.length_append]
      exact Nat.dvd_add it.dvd_length_block ih

theorem cpioWrite_eq {out : Bytes} (hout : 4 ∣ out.length) (it : Item) :
    cpioWrite out it = out ++ it.block := by
  rw [cpioWrite, pad4_append hout, List.append_assoc, pad4_append hout, Item.block]

theorem foldl_cpioWrite {out : Bytes} (hout : 4 ∣ out.length) (items : List Item) :
    items.foldl cpioWrite out = out ++ blocks items := by
  induction items generalizing out with
  | nil => exact (List.append_nil out).symm
  | cons it items ih =>
      have hnext : 4 ∣ (out ++ it.block).length := by
        rw [List.length_append]
        exact Nat.dvd_add hout it.dvd_length_block
      rw [List.foldl_cons, cpioWrite_eq hout, ih hnext, List.append_assoc, blocks, blocks,
        List.flatMap_cons]

theorem cpioBuild_eq (items : List Item) (tail : Bytes) :
    cpioBuild items tail = blocks items ++ tail := by
  rw [cpioBuild, foldl_cpioWrite (dvd_zero 4), List.nil_append]

/-! ### The rewritten header -/

section SizedHdr

variable {it : Item}

theorem Item.slice_sizedHdr_of_le (hlen : it.hdr.length = 110) {a b : Nat} (hb : b ≤ 54) :
    it.sizedHdr.slice a b = it.hdr.slice a b := by
  have hwidth := eight_le_hexWidth it.data.length
  have hinner : 94 ≤ (it.hdr.setSlice 54 62 (fmt08X it.data.length)).length := by
    rw [length_setSlice _ (by omega) (by omega), length_fmt08X]
    omega
  rw [Item.sizedHdr, slice_setSlice_before _ _ (by omega) hinner,
    slice_setSlice_before _ _ hb (by omega)]

theorem Item.slice_sizedHdr_data (hlen : it.hdr.length = 110) :
    it.sizedHdr.slice 54 62 = (fmt08X it.data.length).slice 0 8 := by
  have hwidth := eight_le_hexWidth it.data.length
  have hinner : 94 ≤ (it.hdr.setSlice 54 62 (fmt08X it.data.length)).length := by
    rw [length_setSlice _ (by omega) (by omega), length_fmt08X]
    omega
  have hdigits : 8 ≤ (fmt08X it.data.length).length := by rwa [length_fmt08X]
  rw [Item.sizedHdr, slice_setSlice_before _ _ (by omega) hinner]
  exact slice_setSlice_at 62 (by omega) hdigits

theorem Item.slice_sizedHdr_name (hlen : it.hdr.length = 110) :
    it.sizedHdr.slice 94 102 = (fmt08X (it.name.length + 1)).slice 0 8 := by
  have hwidth := eight_le_hexWidth it.data.length
  have hinner : 94 ≤ (it.hdr.setSlice 54 62 (fmt08X it.data.length)).length := by
    rw [length_setSlice _ (by omega) (by omega), length_fmt08X]
    omega
  have hdigits : 8 ≤ (fmt08X (it.name.length + 1)).length := by
    rw [length_fmt08X]
    exact eight_le_hexWidth _
  exact slice_setSlice_at 102 hinner hdigits

theorem Item.length_sizedHdr (hlen : it.hdr.length = 110) : it.sizedHdr.length =
    94 + (hexWidth it.data.length + hexWidth (it.name.length + 1)) := by
  have hwidth := eight_le_hexWidth it.data.length
  have hinner : (it.hdr.setSlice 54 62 (fmt08X it.data.length)).length =
      it.hdr.length - (62 - 54) + (fmt08X it.data.length).length :=
    length_setSlice _ (by omega) (by omega)
  rw [length_fmt08X] at hinner
  rw [Item.sizedHdr, length_setSlice _ (by omega) (by omega), length_fmt08X, hinner]
  omega

end SizedHdr

/-- A newc header of full length with its magic, and sizes that its fields can hold. -/
structure Item.WellFormed (it : Item) : Prop where
  hdrLength : it.hdr.length = 110
  magic : it.hdr.slice 0 6 = cpioMagic
  dataSize : it.data.length < 2 ^ 32
  nameSize : it.name.length + 1 < 2 ^ 32

/-- The item as it is written: its size fields are those of its name and data. -/
def Item.sized (it : Item) : Item := { it with hdr := it.sizedHdr }

section Block

variable {it : Item}

theorem Item.WellFormed.length_sizedHdr (hit : it.WellFormed) : it.sizedHdr.length = 110 := by
  rw [Item.length_sizedHdr hit.hdrLength, hexWidth_eq_eight_iff.2 hit.dataSize,
    hexWidth_eq_eight_iff.2 hit.nameSize]

theorem Item.WellFormed.sizeField_name (hit : it.WellFormed) :
    sizeField it.sizedHdr 94 102 = .ok ((it.name.length + 1 : Nat) : Int) := by
  have hslice := slice_zero_length (hexFixed 8 (it.name.length + 1))
  rw [length_hexFixed] at hslice
  rw [sizeField, Item.slice_sizedHdr_name hit.hdrLength, fmt08X_of_lt hit.nameSize, hslice,
    pyInt16_hexFixed hit.nameSize]

theorem Item.WellFormed.sizeField_data (hit : it.WellFormed) :
    sizeField it.sizedHdr 54 62 = .ok (it.data.length : Int) := by
  have hslice := slice_zero_length (hexFixed 8 it.data.length)
  rw [length_hexFixed] at hslice
  rw [sizeField, Item.slice_sizedHdr_data hit.hdrLength, fmt08X_of_lt hit.dataSize, hslice,
    pyInt16_hexFixed hit.dataSize]

/-- The parts of a block, in the order in which they are written. -/
theorem Item.block_eq (it : Item) : it.block = it.sizedHdr ++ (it.name ++
    (([0] ++ zeros ((4 - (it.sizedHdr.length + it.name.length + 1) % 4) % 4)) ++
      (it.data ++ zeros ((4 - it.data.length % 4) % 4)))) := by
  have hlen : (it.sizedHdr ++ it.name ++ [0]).length =
      it.sizedHdr.length + it.name.length + 1 := by
    rw [List.length_append, List.length_append, List.length_singleton]
  rw [Item.block, pad4_append (dvd_length_pad4 _), pad4, pad4, hlen]
  simp only [List.append_assoc]

/-- Where a block stands, the parser reads its item, with the size fields the builder wrote. -/
theorem cpioStep_block (hit : it.WellFormed) {pre : Bytes} (hpre : 4 ∣ pre.length) (rest : Bytes) :
    cpioStep (pre ++ (it.block ++ rest)) pre.length =
      .ok (some (it.sized, ((pre ++ it.block).length : Nat))) := by
  have hlenHdr := hit.length_sizedHdr
  set a := (4 - (it.sizedHdr.length + it.name.length + 1) % 4) % 4 with ha
  set b := (4 - it.data.length % 4) % 4 with hb
  have hbuf : pre ++ (it.block ++ rest) = pre ++ (it.sizedHdr ++ (it.name ++
      (([0] ++ zeros a) ++ (it.data ++ (zeros b ++ rest))))) := by
    rw [it.block_eq, ← ha, ← hb]
    simp only [List.append_assoc]
  have hlenBlock : it.block.length = 110 + it.name.length + (1 + a) + it.data.length + b := by
    rw [it.block_eq, ← ha, ← hb]
    simp only [List.length_append, List.length_singleton, length_zeros, hlenHdr]
    omega
  have hhdr : (pre ++ (it.block ++ rest)).slice pre.length (pre.length + 110) = it.sizedHdr := by
    rw [hbuf]
    exact slice_append_mid _ _ _ rfl (by rw [hlenHdr])
  have hmagic : (pre ++ (it.block ++ rest)).slice pre.length (pre.length + 6) = cpioMagic := by
    rw [hbuf, slice_append_right _ _ le_rfl, Nat.sub_self, Nat.add_sub_cancel_left,
      slice_append_left _ _ (by omega), Item.slice_sizedHdr_of_le hit.hdrLength (by omega),
      hit.magic]
  have hname : (pre ++ (it.block ++ rest)).slice (pre.length + 110)
      (pre.length + 110 + it.name.length) = it.name := by
    rw [hbuf, ← List.append_assoc]
    refine slice_append_mid _ _ _ ?_ ?_ <;> rw [List.length_append, hlenHdr]
  have hdata : (pre ++ (it.block ++ rest)).slice (pre.length + 110 + it.name.length + (1 + a))
      (pre.length + 110 + it.name.length + (1 + a) + it.data.length) = it.data := by
    rw [hbuf, ← List.append_assoc, ← List.append_assoc, ← List.append_assoc]
    refine slice_append_mid _ _ _ ?_ ?_ <;>
      simp only [List.length_append, List.length_singleton, length_zeros, hlenHdr]
  have hp : align4 ((pre.length : Int) + 110 + ((it.name.length + 1 : Nat) : Int)) =
      ((pre.length + 110 + it.name.length + (1 + a) : Nat) : Int) := by
    rw [align4]
    omega
  have hnext : align4 (((pre.length + 110 + it.name.length + (1 + a) : Nat) : Int) +
      (it.data.length : Int)) = ((pre ++ it.block).length : Nat) := by
    rw [align4, List.length_append, hlenBlock]
    omega
  have hfits : ((pre.length : Nat) : Int) + 110 ≤ (pre ++ (it.block ++ rest)).length := by
    simp only [List.length_append, hlenBlock]
    omega
  have hslice (x y : Nat) := pySlice_natCast (pre ++ (it.block ++ rest)) x y
  have hhdrInt : (pre ++ (it.block ++ rest)).pySlice pre.length (pre.length + 110) =
      it.sizedHdr := by
    rw [← hhdr, ← hslice, Nat.cast_add, Nat.cast_ofNat]
  rw [cpioStep, if_neg (not_not.2 hfits), if_neg]
  · simp only [hhdrInt, hit.sizeField_name, hit.sizeField_data, ok_bind, hp, hnext]
    have hstart : (pre.length : Int) + 110 = ((pre.length + 110 : Nat) : Int) := by omega
    have hstop : ((pre.length + 110 : Nat) : Int) + ((it.name.length + 1 : Nat) : Int) - 1 =
        ((pre.length + 110 + it.name.length : Nat) : Int) := by omega
    rw [hstart, hstop, hslice, hname, ← Nat.cast_add, hslice, hdata]
    rfl
  · rw [not_not, ← hmagic, ← hslice, Nat.cast_add, Nat.cast_ofNat]

/-- Everything one pass of the parser does when it reads an item. -/
theorem cpioStep_eq_some {buf : Bytes} {q q' : Int} (hstep : cpioStep buf q = .ok (some (it, q'))) :
    q + 110 ≤ buf.length ∧ buf.pySlice q (q + 6) = cpioMagic ∧ it.hdr = buf.pySlice q (q + 110) ∧
      ∃ nsz fsz, sizeField it.hdr 94 102 = .ok nsz ∧ sizeField it.hdr 54 62 = .ok fsz ∧
        it.name = buf.pySlice (q + 110) (q + 110 + nsz - 1) ∧
        it.data = buf.pySlice (align4 (q + 110 + nsz)) (align4 (q + 110 + nsz) + fsz) := by
  simp only [cpioStep] at hstep
  split at hstep
  · cases hstep
  · rename_i hfits
    split at hstep
    · cases hstep
    · rename_i hmagic
      obtain ⟨nsz, hnsz, hstep⟩ := bind_eq_ok.1 hstep
      obtain ⟨fsz, hfsz, hstep⟩ := bind_eq_ok.1 hstep
      cases hstep
      exact ⟨not_not.1 hfits, not_not.1 hmagic, rfl, nsz, fsz, hnsz, hfsz, rfl, rfl⟩

theorem length_hdr_of_cpioStep {buf : Bytes} {q q' : Int}
    (hstep : cpioStep buf q = .ok (some (it, q'))) : it.hdr.length ≤ 110 := by
  obtain ⟨-, -, hhdr, -⟩ := cpioStep_eq_some hstep
  have hlen := length_pySlice_le buf (show q ≤ q + 110 by omega)
  rw [← hhdr] at hlen
  omega

/-- An item that is read where its own block stands was written with the sizes it has: longer sizes
would not fit the eight digits that were read. -/
theorem wellFormed_of_cpioStep {pre rest : Bytes} {q' : Int}
    (hstep : cpioStep (pre ++ (it.block ++ rest)) pre.length = .ok (some (it, q'))) :
    it.WellFormed ∧ it.sizedHdr = it.hdr := by
  obtain ⟨hfits, hmagic, hhdr, nsz, fsz, hnsz, hfsz, hname, hdata⟩ := cpioStep_eq_some hstep
  have hslice (x y : Nat) := pySlice_natCast (pre ++ (it.block ++ rest)) x y
  have hhdrNat : it.hdr = (pre ++ (it.block ++ rest)).slice pre.length (pre.length + 110) := by
    rw [← hslice, Nat.cast_add, Nat.cast_ofNat, hhdr]
  have hlen : it.hdr.length = 110 := by
    rw [hhdrNat, length_slice]
    omega
  have hlenSized := Item.length_sizedHdr hlen
  have hwidth := eight_le_hexWidth it.data.length
  have hwidth' := eight_le_hexWidth (it.name.length + 1)
  have hhead : it.hdr = it.sizedHdr.slice 0 110 := by
    rw [hhdrNat, slice_append_right _ _ le_rfl, Nat.sub_self, Nat.add_sub_cancel_left,
      it.block_eq, List.append_assoc, slice_append_left _ _ (by omega)]
  have hfield {a b : Nat} (hb : b ≤ 110) : it.hdr.slice a b = it.sizedHdr.slice a b := by
    rw [hhead, slice_slice _ (by omega), Nat.zero_add, Nat.zero_add]
  -- the sizes that were read are the first eight digits of the sizes that were written
  rw [sizeField, hfield (by omega), Item.slice_sizedHdr_name hlen, slice_fmt08X,
    pyInt16_hexFixed (leading_lt _), Except.ok.injEq] at hnsz
  rw [sizeField, hfield (by omega), Item.slice_sizedHdr_data hlen, slice_fmt08X,
    pyInt16_hexFixed (leading_lt _), Except.ok.injEq] at hfsz
  have hnameLen : it.name.length ≤
      (it.name.length + 1) / 16 ^ (hexWidth (it.name.length + 1) - 8) := by
    rw [← hnsz] at hname
    generalize (it.name.length + 1) / 16 ^ (hexWidth (it.name.length + 1) - 8) = lead at hname ⊢
    have hstart : (pre.length : Int) + 110 = ((pre.length + 110 : Nat) : Int) := by omega
    have hstop : ((pre.length + 110 : Nat) : Int) + (lead : Int) - 1 =
        ((pre.length + 109 + lead : Nat) : Int) := by omega
    rw [hstart, hstop, hslice] at hname
    have hle := congrArg List.length hname
    rw [length_slice] at hle
    omega
  have hdataLen : it.data.length ≤ it.data.length / 16 ^ (hexWidth it.data.length - 8) := by
    rw [← hfsz] at hdata
    generalize it.data.length / 16 ^ (hexWidth it.data.length - 8) = lead at hdata ⊢
    have hle := length_pySlice_le (pre ++ (it.block ++ rest))
      (show align4 (pre.length + 110 + nsz) ≤ align4 (pre.length + 110 + nsz) + lead by omega)
    rw [← hdata] at hle
    omega
  have hdataSize : it.data.length < 2 ^ 32 := lt_of_le_leading (by omega)
  have hnameSize : it.name.length + 1 < 2 ^ 32 := lt_of_le_leading (by omega)
  refine ⟨⟨hlen, ?_, hdataSize, hnameSize⟩, ?_⟩
  · rw [hhdrNat, slice_slice _ (by omega), Nat.add_zero, ← hslice, Nat.cast_add, Nat.cast_ofNat,
      hmagic]
  · rw [hexWidth_eq_eight_iff.2 hdataSize, hexWidth_eq_eight_iff.2 hnameSize] at hlenSized
    rw [hhead]
    have hfull := slice_zero_length it.sizedHdr
    rw [hlenSized] at hfull
    exact hfull.symm

end Block

end LineageA1000.BootImg
