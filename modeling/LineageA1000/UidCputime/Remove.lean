import LineageA1000.UidCputime.Table
import LineageA1000.Lib.Decimal
import LineageA1000.Lib.Errno

/-!
# Removing a range of uids

`uid_remove_write` of `uid_cputime.c`. The bounds are `long`s, as is the counter that goes from one
to the other, and the kernel is built so that it wraps: it never gets past the largest `long`. The
write takes at most 127 bytes, so the bounds of a longer text are those of its beginning.
-/

namespace LineageA1000.UidCputime

open Bytes

/-- `long` of the 32-bit kernel. -/
abbrev Long := BitVec 32

/-- `LONG_MAX`. -/
def longMax : Long := 0x7FFFFFFF

/-- `sizeof(uids) - 1`. -/
def uidsSize : Nat := 127

/-- The entries with these uids stay. -/
def UidTable.keep (T : UidTable) (p : Uid → Bool) : UidTable where
  entries := T.entries.filter fun e => p e.uid
  distinct := T.distinct.sublist (List.filter_sublist.map UidEntry.uid)

/-! ### The write -/

/-- The two numbers of the text, a C string that is cut at its first `'-'`. -/
def parseRange (kstrtol : Bytes → Option Long) (text : Bytes) : Option (Long × Long) :=
  let uids := text.takeWhile (· ≠ 0)
  let startUid := uids.takeWhile (· ≠ 0x2D)
  match uids.drop startUid.length with
  | [] => none
  | _ :: endUid =>
      match kstrtol startUid, kstrtol endUid with
      | some uidStart, some uidEnd => some (uidStart, uidEnd)
      | _, _ => none

/-- One pass of the loop: the bucket of the uid is searched for its entry. -/
def removeUid (hash : Uid → Nat) (T : UidTable) (uidStart : Long) : UidTable :=
  T.keep fun uid => ! (hash uid = hash uidStart && uid = uidStart)

/-- `for (; uid_start <= uid_end; uid_start++)`. -/
def removeUids (hash : Uid → Nat) : Nat → Long → Long → UidTable → Option UidTable
  | 0, _, _, _ => none
  | fuel + 1, uidStart, uidEnd, T =>
      if uidStart.sle uidEnd then
        removeUids hash fuel (uidStart + 1) uidEnd (removeUid hash T uidStart)
      else some T

/-- `uid_remove_write` with what it returns; `none` where its loop takes more than `fuel` passes. -/
def uidRemoveWrite (hash : Uid → Nat) (kstrtol : Bytes → Option Long) (fuel : Nat)
    (copyFromUser : Bool) (buffer : Bytes) (T : UidTable) : Option (Int × UidTable) :=
  let uids := buffer.take uidsSize
  if copyFromUser = false then some (-EFAULT, T)
  else
    match parseRange kstrtol uids with
    | none => some (-EINVAL, T)
    | some (uidStart, uidEnd) =>
        (removeUids hash fuel uidStart uidEnd T).map fun T => (uids.length, T)

/-! ### What has to hold -/

/-- The uid lies between the bounds, if there are any. -/
def inRange : Option (Long × Long) → Uid → Bool
  | none, _ => false
  | some (uidStart, uidEnd), uid => uidStart.toInt ≤ uid.toNat ∧ (uid.toNat : Int) ≤ uidEnd.toInt

/-- The write returns, and what is left in the table is what lies outside the range of the text. -/
def RemovesExactly (hash : Uid → Nat) (kstrtol : Bytes → Option Long) (copyFromUser : Bool)
    (text : Bytes) (T : UidTable) : Prop :=
  ∃ fuel ret, uidRemoveWrite hash kstrtol fuel copyFromUser text T =
    some (ret, T.keep fun uid => ! (copyFromUser && inRange (parseRange kstrtol text) uid))

/-- The bytes that the write takes have bounds that its counter gets past, and they have no other
uid of the table between them than those of the whole text. -/
structure RangePassable (kstrtol : Bytes → Option Long) (text : Bytes) (T : UidTable) : Prop where
  passed : ∀ uidStart uidEnd, parseRange kstrtol (text.take uidsSize) = some (uidStart, uidEnd) →
    uidStart.sle uidEnd → uidEnd ≠ longMax
  whole : ∀ e ∈ T.entries, inRange (parseRange kstrtol (text.take uidsSize)) e.uid =
    inRange (parseRange kstrtol text) e.uid

/-! ### The table -/

theorem UidTable.keep_keep (T : UidTable) (p q : Uid → Bool) :
    (T.keep p).keep q = T.keep fun uid => p uid && q uid := by
  simp only [UidTable.keep, List.filter_filter, Bool.and_comm]

theorem UidTable.keep_true (T : UidTable) : (T.keep fun _ => true) = T := by
  simp only [UidTable.keep, List.filter_true]

theorem UidTable.keep_eq_iff (T : UidTable) (p q : Uid → Bool) :
    T.keep p = T.keep q ↔ ∀ e ∈ T.entries, p e.uid = q e.uid := by
  rw [UidTable.keep, UidTable.keep, UidTable.mk.injEq]
  constructor
  · intro heq e he
    have hmem : e ∈ T.entries.filter (fun e => p e.uid) ↔
        e ∈ T.entries.filter fun e => q e.uid := by rw [heq]
    rw [List.mem_filter, List.mem_filter, and_iff_right he, and_iff_right he] at hmem
    exact Bool.eq_iff_iff.2 hmem
  · intro hall
    exact List.filter_congr hall

theorem removeUid_eq (hash : Uid → Nat) (T : UidTable) (uidStart : Long) :
    removeUid hash T uidStart = T.keep fun uid => uid ≠ uidStart := by
  rw [removeUid, UidTable.keep_eq_iff]
  intro e _
  by_cases heq : e.uid = uidStart <;> simp [heq]

/-! ### The loop -/

variable {hash : Uid → Nat} {kstrtol : Bytes → Option Long} {uidStart uidEnd : Long}

theorem toInt_longMax : longMax.toInt = 2 ^ 31 - 1 := by decide

theorem toInt_succ (hlt : uidStart.toInt < 2 ^ 31 - 1) :
    (uidStart + 1).toInt = uidStart.toInt + 1 := by
  have hone : (1 : Long).toInt = 1 := by decide
  have hge := BitVec.le_toInt uidStart
  rw [BitVec.toInt_add, hone]
  apply Int.bmod_eq_of_le <;> omega

/-- The counter never gets past the largest `long`. -/
theorem removeUids_longMax (fuel : Nat) (uidStart : Long) (T : UidTable) :
    removeUids hash fuel uidStart longMax T = none := by
  induction fuel generalizing uidStart T with
  | zero => rfl
  | succ fuel ih =>
      have hle : uidStart.sle longMax := by
        rw [BitVec.sle_iff_toInt_le, toInt_longMax]
        have := BitVec.toInt_lt (x := uidStart)
        omega
      rw [removeUids, if_pos hle]
      exact ih _ _

/-- A loop that has ended with some fuel ends so with more. -/
theorem removeUids_mono {fuel : Nat} {T T' : UidTable}
    (hloop : removeUids hash fuel uidStart uidEnd T = some T') (more : Nat) :
    removeUids hash (fuel + more) uidStart uidEnd T = some T' := by
  induction fuel generalizing uidStart T with
  | zero => cases hloop
  | succ fuel ih =>
      rw [removeUids] at hloop
      rw [Nat.add_right_comm, removeUids]
      split at hloop
      · rename_i hle
        rw [if_pos hle]
        exact ih hloop
      · rename_i hgt
        rw [if_neg hgt]
        exact hloop

theorem inRange_iff (uid : Uid) :
    inRange (some (uidStart, uidEnd)) uid = true ↔
      uidStart.toInt ≤ uid.toNat ∧ (uid.toNat : Int) ≤ uidEnd.toInt := decide_eq_true_iff

theorem toNat_eq_iff (hstart : 0 ≤ uidStart.toInt) (uid : Uid) :
    uid = uidStart ↔ (uid.toNat : Int) = uidStart.toInt := by
  have hnat := BitVec.toInt_eq_toNat_of_msb (BitVec.msb_eq_false_iff_two_mul_lt.2 (by
    rw [BitVec.toInt_eq_toNat_cond] at hstart
    split at hstart
    · assumption
    · have := uidStart.isLt
      omega))
  rw [hnat, ← BitVec.toNat_inj]
  omega

/-- Taking out the first uid of a range leaves the range from the next one on. -/
theorem inRange_succ (hstart : 0 ≤ uidStart.toInt) (hlt : uidStart.toInt < 2 ^ 31 - 1)
    (hle : uidStart.toInt ≤ uidEnd.toInt) (uid : Uid) :
    (decide (uid ≠ uidStart) && ! inRange (some (uidStart + 1, uidEnd)) uid) =
      ! inRange (some (uidStart, uidEnd)) uid := by
  rw [Bool.eq_iff_iff, Bool.and_eq_true, decide_eq_true_iff, Bool.not_eq_true', Bool.not_eq_true',
    ← Bool.not_eq_true, ← Bool.not_eq_true, inRange_iff, inRange_iff, toInt_succ hlt, ne_eq,
    toNat_eq_iff hstart]
  omega

/-- Short of it the loop removes exactly what lies between the bounds. -/
theorem removeUids_eq (hstart : 0 ≤ uidStart.toInt)
    (hend : uidStart.sle uidEnd → uidEnd ≠ longMax) {fuel : Nat} (T : UidTable)
    (hfuel : (uidEnd.toInt + 1 - uidStart.toInt).toNat < fuel) :
    removeUids hash fuel uidStart uidEnd T =
      some (T.keep fun uid => ! inRange (some (uidStart, uidEnd)) uid) := by
  induction fuel generalizing uidStart T with
  | zero => exact absurd hfuel (Nat.not_lt_zero _)
  | succ fuel ih =>
      rw [removeUids]
      split
      · rename_i hle
        have hne : uidEnd.toInt ≠ 2 ^ 31 - 1 := by
          rw [← toInt_longMax, ne_eq, BitVec.toInt_inj]
          exact hend hle
        have hbound := BitVec.toInt_lt (x := uidEnd)
        rw [BitVec.sle_iff_toInt_le] at hle
        have hlt : uidStart.toInt < 2 ^ 31 - 1 := by omega
        have hsucc := toInt_succ hlt
        have hrest (_ : (uidStart + 1).sle uidEnd) : uidEnd ≠ longMax :=
          hend (BitVec.sle_iff_toInt_le.2 hle)
        rw [ih (by omega) hrest _ (by omega), removeUid_eq, UidTable.keep_keep]
        congr 2
        funext uid
        exact inRange_succ hstart hlt hle uid
      · rename_i hgt
        rw [BitVec.sle_iff_toInt_le, not_le] at hgt
        congr 1
        rw [← UidTable.keep_true T, UidTable.keep_keep, UidTable.keep_eq_iff]
        intro e _
        rw [Bool.true_and, eq_comm, Bool.not_eq_true', ← Bool.not_eq_true, inRange_iff]
        omega

/-! ### The whole write -/

/-- A table from which nothing is taken. -/
theorem keep_not_inRange_none (T : UidTable) : (T.keep fun uid => ! inRange none uid) = T :=
  T.keep_true

theorem uidRemoveWrite_none {buffer : Bytes} (T : UidTable)
    (hnone : parseRange kstrtol (buffer.take uidsSize) = none) (fuel : Nat) :
    uidRemoveWrite hash kstrtol fuel true buffer T = some (-EINVAL, T) := by
  rw [uidRemoveWrite, if_neg (by decide), hnone]

theorem uidRemoveWrite_some {buffer : Bytes} (T : UidTable)
    (hsome : parseRange kstrtol (buffer.take uidsSize) = some (uidStart, uidEnd)) (fuel : Nat) :
    uidRemoveWrite hash kstrtol fuel true buffer T =
      (removeUids hash fuel uidStart uidEnd T).map
        fun T => (((buffer.take uidsSize).length : Int), T) := by
  rw [uidRemoveWrite, if_neg (by decide), hsome]

/-- The first number is cut off in front of the first `'-'`, and so has none. -/
theorem start_nonneg (hsign : ∀ s, 0x2D ∉ s → ∀ v ∈ kstrtol s, 0 ≤ v.toInt) {text : Bytes}
    (hsome : parseRange kstrtol text = some (uidStart, uidEnd)) : 0 ≤ uidStart.toInt := by
  rw [parseRange] at hsome
  split at hsome
  · cases hsome
  · split at hsome
    · rename_i hstart _
      cases hsome
      apply hsign _ _ _ hstart
      intro hmem
      have := List.mem_takeWhile_imp hmem
      exact absurd this (by decide)
    · cases hsome

/-- What a write does once it has been read: it removes the range of the bytes it takes, unless the
counter has no way past the end of it. -/
theorem exists_uidRemoveWrite_iff (hsign : ∀ s, 0x2D ∉ s → ∀ v ∈ kstrtol s, 0 ≤ v.toInt)
    (text : Bytes) (T T' : UidTable) :
    (∃ fuel ret, uidRemoveWrite hash kstrtol fuel true text T = some (ret, T')) ↔
      (∀ uidStart uidEnd, parseRange kstrtol (text.take uidsSize) = some (uidStart, uidEnd) →
        uidStart.sle uidEnd → uidEnd ≠ longMax) ∧
      T' = T.keep fun uid => ! inRange (parseRange kstrtol (text.take uidsSize)) uid := by
  cases hparse : parseRange kstrtol (text.take uidsSize) with
  | none =>
      rw [keep_not_inRange_none]
      constructor
      · intro ⟨fuel, ret, hwrite⟩
        rw [uidRemoveWrite_none T hparse] at hwrite
        cases hwrite
        exact ⟨fun _ _ h => (nomatch h), rfl⟩
      · intro ⟨_, hT⟩
        exact ⟨0, -EINVAL, by rw [uidRemoveWrite_none T hparse, hT]⟩
  | some range =>
      obtain ⟨uidStart, uidEnd⟩ := range
      have hstart := start_nonneg hsign hparse
      constructor
      · intro ⟨fuel, ret, hwrite⟩
        rw [uidRemoveWrite_some T hparse, Option.map_eq_some_iff] at hwrite
        obtain ⟨T'', hloop, hret⟩ := hwrite
        cases hret
        have hend : uidEnd ≠ longMax := by
          rintro rfl
          rw [removeUids_longMax] at hloop
          cases hloop
        constructor
        · intro _ _ hrange _
          cases hrange
          exact hend
        · have hmore := removeUids_mono hloop ((uidEnd.toInt + 1 - uidStart.toInt).toNat + 1)
          rw [removeUids_eq hstart (fun _ => hend) T (by omega)] at hmore
          exact (Option.some.inj hmore).symm
      · intro ⟨hend, hT⟩
        refine ⟨(uidEnd.toInt + 1 - uidStart.toInt).toNat + 1, (text.take uidsSize).length, ?_⟩
        rw [uidRemoveWrite_some T hparse,
          removeUids_eq hstart (hend uidStart uidEnd rfl) T (Nat.lt_succ_self _), hT]
        rfl

/-- A write removes the range of its text and no more exactly when it fails to be read or its bytes
have passable bounds. -/
theorem removesExactly_iff (hash : Uid → Nat) (kstrtol : Bytes → Option Long)
    (hsign : ∀ s, 0x2D ∉ s → ∀ v ∈ kstrtol s, 0 ≤ v.toInt) (copyFromUser : Bool) (text : Bytes)
    (T : UidTable) :
    RemovesExactly hash kstrtol copyFromUser text T ↔
      (copyFromUser = true → RangePassable kstrtol text T) := by
  cases copyFromUser with
  | false =>
      apply iff_of_true
      · refine ⟨0, -EFAULT, ?_⟩
        rw [uidRemoveWrite, if_pos rfl]
        simp only [Bool.false_and, Bool.not_false, UidTable.keep_true]
      · exact fun h => nomatch h
  | true =>
      rw [forall_prop_of_true rfl, RemovesExactly, exists_uidRemoveWrite_iff hsign]
      simp only [Bool.true_and]
      rw [UidTable.keep_eq_iff]
      constructor
      · intro ⟨hpassed, hwhole⟩
        exact ⟨hpassed, fun e he => (Bool.not_inj (hwhole e he)).symm⟩
      · intro ⟨hpassed, hwhole⟩
        exact ⟨hpassed, fun e he => congrArg not (hwhole e he).symm⟩

/-! ### What the kernel reads -/

/-- The one newline that may stand at the end of a number. -/
def chomp (s : Bytes) : Bytes := if s.getLast? = some 0x0A then s.dropLast else s

/-- `kstrtol(s, 10, _)` as the kernel documents it: one sign, digits and at most one newline. -/
def kstrtolDecimal (s : Bytes) : Option Long :=
  let digits := chomp (takeSign s).2
  let value := (takeSign s).1 * digitsValue digits
  if digits = [] ∨ ! digits.all isDigit then none
  else if -2147483648 ≤ value ∧ value ≤ 2147483647 then some (BitVec.ofInt 32 value)
  else none

theorem takeSign_fst_of_not_mem {s : Bytes} (hs : 0x2D ∉ s) : (takeSign s).1 = 1 := by
  cases s with
  | nil => rfl
  | cons b s =>
      rw [takeSign]
      split
      · rfl
      · split
        · rename_i hminus
          rw [hminus] at hs
          exact absurd (List.mem_cons_self ..) hs
        · rfl

theorem kstrtolDecimal_nonneg (s : Bytes) (hs : 0x2D ∉ s) :
    ∀ v ∈ kstrtolDecimal s, 0 ≤ v.toInt := by
  intro v hv
  rw [Option.mem_def, kstrtolDecimal, takeSign_fst_of_not_mem hs, one_mul] at hv
  split at hv
  · cases hv
  · split at hv
    · rename_i hrange
      rw [← Option.some.inj hv, BitVec.toInt_ofInt, Int.bmod_eq_of_le (by omega) (by omega)]
      exact Int.natCast_nonneg _
    · cases hv

/-- `"5-7"`. -/
def textFiveToSeven : Bytes := [0x35, 0x2D, 0x37]

/-- An entry without any time. -/
def idleEntry (uid : Uid) : UidEntry := ⟨uid, 0, 0, 0, 0⟩

/-- The uids 4 and 6. -/
def twoUids : UidTable := ⟨[idleEntry 4, idleEntry 6], by decide⟩

theorem removesExactly_iff_fiveToSeven :
    RemovesExactly (fun uid => uid.toNat % 1024) kstrtolDecimal true textFiveToSeven twoUids ↔
      (true = true → RangePassable kstrtolDecimal textFiveToSeven twoUids) :=
  removesExactly_iff (fun uid => uid.toNat % 1024) kstrtolDecimal kstrtolDecimal_nonneg true
    textFiveToSeven twoUids

/-- `"0-2147483647"`. -/
def textToLongMax : Bytes :=
  [0x30, 0x2D, 0x32, 0x31, 0x34, 0x37, 0x34, 0x38, 0x33, 0x36, 0x34, 0x37]

theorem parseRange_textToLongMax :
    parseRange kstrtolDecimal (textToLongMax.take uidsSize) = some (0, longMax) := by
  decide

/-- The write of the range from `0` to the largest `long` does not return. -/
theorem not_removesExactly_textToLongMax :
    ¬ ∀ (hash : Uid → Nat) (kstrtol : Bytes → Option Long),
      (∀ s, 0x2D ∉ s → ∀ v ∈ kstrtol s, 0 ≤ v.toInt) →
      ∀ (copyFromUser : Bool) (text : Bytes) (T : UidTable),
        RemovesExactly hash kstrtol copyFromUser text T := by
  intro hall
  obtain ⟨fuel, ret, hwrite⟩ := hall (fun uid => uid.toNat % 1024) kstrtolDecimal
    kstrtolDecimal_nonneg true textToLongMax twoUids
  rw [uidRemoveWrite_some _ parseRange_textToLongMax, removeUids_longMax] at hwrite
  cases hwrite

end LineageA1000.UidCputime
