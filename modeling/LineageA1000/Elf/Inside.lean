import LineageA1000.Elf.Load
import Mathlib.Data.Nat.Basic
import Mathlib.Order.Basic

/-!
# The loader inside its mapping

`elfload_open` checks no bound: its mapping has the size that the program headers' addresses give,
and what it copies, relocates and protects follows their file sizes and the relocation entries. So
it stays inside for the images it is made for, those whose segments do not wrap and hold their file
part and whose relocations name words of the image outside the relocation tables. A relocation is
read from the memory that the relocations before it have changed, hence the last condition.
-/

namespace LineageA1000.Elf

open Memory

/-! ### Pages -/

theorem getLsbD_pageMask : ∀ j : Fin 32,
    (~~~(4096 - 1) : BitVec 32).getLsbD j.val = decide (12 ≤ j.val) := by
  decide

theorem pageDown_eq (x : BitVec 32) : pageDown x = (x >>> 12) <<< 12 := by
  unfold pageDown
  apply BitVec.eq_of_getLsbD_eq
  intro i hi
  rw [BitVec.getLsbD_and, getLsbD_pageMask ⟨i, hi⟩, BitVec.getLsbD_shiftLeft,
    BitVec.getLsbD_ushiftRight]
  by_cases hlow : i < 12
  · simp [hlow]
  · have hback : 12 + (i - 12) = i := by omega
    simp only [hback, hi, hlow, decide_true, decide_false, Bool.not_false, Bool.true_and]
    rw [decide_eq_true (by omega : 12 ≤ i), Bool.and_true]

theorem toNat_pageDown (x : BitVec 32) : (pageDown x).toNat = x.toNat / 4096 * 4096 := by
  have hx := x.isLt
  rw [pageDown_eq, BitVec.toNat_shiftLeft, BitVec.toNat_ushiftRight, Nat.shiftRight_eq_div_pow,
    Nat.shiftLeft_eq]
  omega

/-- Rounding up does not wrap before the last page. -/
theorem toNat_pageUp {x : BitVec 32} (hx : x.toNat ≤ 2 ^ 32 - 4096) :
    (pageUp x).toNat = (x.toNat + 4095) / 4096 * 4096 := by
  have hone : (1 : BitVec 32).toNat = 1 := rfl
  have hpage : (4096 : BitVec 32).toNat = 4096 := rfl
  have hsum : (x + 4096 - 1).toNat = x.toNat + 4095 := by
    rw [BitVec.toNat_sub, BitVec.toNat_add, hone, hpage]
    omega
  have hmask : pageUp x = pageDown (x + 4096 - 1) := rfl
  rw [hmask, toNat_pageDown, hsum]

/-! ### The images the loader is made for -/

/-- No segment wraps, not even rounded up to its last page, and each holds its part of the file. -/
def SegmentsFit (phs : List Phdr) : Prop :=
  ∀ ph ∈ phs, ph.pType = ptLoad →
    ph.pVaddr.toNat + ph.pMemsz.toNat ≤ 2 ^ 32 - 4096 ∧ ph.pFilesz.toNat ≤ ph.pMemsz.toNat

instance (phs : List Phdr) : Decidable (SegmentsFit phs) :=
  inferInstanceAs (Decidable (∀ ph ∈ phs, _))

/-- The relocation tables: the address of the first entry and the number of entries. -/
def Image.relocationTables (image : Image) : List (Addr × Nat) :=
  [(image.tables.rel, image.tables.relsz.toNat / 8),
    (image.tables.jmprel, image.tables.jmprelsz.toNat / 8)].filter fun t => t.1 ≠ 0

/-- Every entry of the tables names a word that lies in the mapping and is no part of a table. -/
def RelocationsFit (memory : Memory) (image : Image) (base span : Addr) : Prop :=
  ∀ t ∈ image.relocationTables, ∀ k < t.2,
    let slot := slotAt memory image.base (t.1 + BitVec.ofNat 32 (8 * k))
    Within base span slot 4 ∧
      ∀ t' ∈ image.relocationTables, ∀ j < 8 * t'.2, ¬ Covers slot 4 (t'.1 + BitVec.ofNat 32 j)

instance (memory : Memory) (image : Image) (base span : Addr) :
    Decidable (RelocationsFit memory image base span) := by
  unfold RelocationsFit
  infer_instance

/-- The relocations of what is mapped fit, if it comes to relocations. -/
def ImageFits (env : Env) (phs : List Phdr) (base : Addr) (l : Loader) : Prop :=
  ∀ image ∈ (mapImage env phs (loadBase phs base) l).2,
    RelocationsFit (mapImage env phs (loadBase phs base) l).1.memory image base (spanOf phs)

instance (env : Env) (phs : List Phdr) (base : Addr) (l : Loader) :
    Decidable (ImageFits env phs base l) :=
  Option.decidableForallMem _

/-- What the loader reads lies in the file. -/
def ReadsInFile (file : List UInt8) (l : Loader) : Prop :=
  ∀ r ∈ l.fileReads, ∀ k < r.2, r.1 + k < file.length

/-! ### What each part records -/

theorem pread_le (file : List UInt8) (count offset : BitVec 32) :
    (pread file count offset).2 ≤ count.toNat ∧
      (pread file count offset).2 ≤ file.length - offset.toNat := by
  unfold pread
  split
  · exact ⟨Nat.zero_le _, Nat.zero_le _⟩
  · dsimp only
    omega

theorem readHeaders_spec (env : Env) (l : Loader) : ∃ reads,
    (readHeaders env l).1 = { l with fileReads := l.fileReads ++ reads } ∧
      ∀ r ∈ reads, ∀ k < r.2, r.1 + k < env.file.length := by
  have hhead : ∀ r ∈ [(0, min 52 env.file.length)], ∀ k < r.2, r.1 + k < env.file.length := by
    intro r hr k hk
    rw [List.mem_singleton.1 hr] at hk ⊢
    dsimp only at hk ⊢
    omega
  unfold readHeaders
  split
  · exact ⟨[], by rw [List.append_nil], nofun⟩
  dsimp only
  split
  · exact ⟨_, rfl, hhead⟩
  case h_2 eh _ =>
    split
    · exact ⟨_, rfl, hhead⟩
    split
    · exact ⟨_, rfl, hhead⟩
    have htable : ∀ r ∈ [(0, min 52 env.file.length), (eh.ePhoff.toNat, (pread env.file
        (eh.ePhnum.setWidth 32 * eh.ePhentsize.setWidth 32) eh.ePhoff).2)],
        ∀ k < r.2, r.1 + k < env.file.length := by
      intro r hr k hk
      rcases List.mem_cons.1 hr with h | h
      · exact hhead r (List.mem_singleton.2 h) k hk
      · rw [List.mem_singleton.1 h] at hk ⊢
        dsimp only at hk ⊢
        have hle := (pread_le env.file (eh.ePhnum.setWidth 32 * eh.ePhentsize.setWidth 32)
          eh.ePhoff).2
        omega
    split
    · exact ⟨_, by simp [Loader.fileRead], htable⟩
    · exact ⟨_, by simp [Loader.fileRead], htable⟩

/-- A copy starts at its segment and is no longer than the segment's part of the file. -/
def CopyOf (base : Addr) (phs : List Phdr) (c : Addr × Nat) : Prop :=
  ∃ ph ∈ phs, ph.pType = ptLoad ∧ c.1 = base + ph.pVaddr ∧ c.2 ≤ ph.pFilesz.toNat

theorem copySegment_spec (env : Env) (base : Addr) (ph : Phdr) (phs : List Phdr) (l : Loader) :
    ∃ memory reads copies,
      (copySegment env base ph l).1 =
        { l with
          memory := memory
          fileReads := l.fileReads ++ reads
          copied := l.copied ++ copies } ∧
      (∀ r ∈ reads, ∀ k < r.2, r.1 + k < env.file.length) ∧
      ∀ c ∈ copies, CopyOf base (ph :: phs) c := by
  obtain ⟨hcount, hfile⟩ := pread_le env.file ph.pFilesz ph.pOffset
  unfold copySegment
  split
  case isTrue => exact ⟨l.memory, [], [], by simp, nofun, nofun⟩
  case isFalse hload =>
    refine ⟨_, _, _, rfl, fun r hr k hk => ?_, fun c hc => ?_⟩
    · rw [List.mem_singleton.1 hr] at hk ⊢
      dsimp only at hk ⊢
      omega
    · rw [List.mem_singleton.1 hc]
      refine ⟨ph, List.mem_cons_self, ?_, rfl, hcount⟩
      by_contra hne
      exact hload (.inl hne)

theorem copySegments_spec (env : Env) (base : Addr) (phs : List Phdr) (l : Loader) :
    ∃ memory reads copies,
      (copySegments env base phs l).1 =
        { l with
          memory := memory
          fileReads := l.fileReads ++ reads
          copied := l.copied ++ copies } ∧
      (∀ r ∈ reads, ∀ k < r.2, r.1 + k < env.file.length) ∧
      ∀ c ∈ copies, CopyOf base phs c := by
  induction phs generalizing l with
  | nil => exact ⟨l.memory, [], [], by simp [copySegments], nofun, nofun⟩
  | cons ph phs ih =>
      obtain ⟨memory, reads, copies, heq, hreads, hcopies⟩ := copySegment_spec env base ph phs l
      have hmore : ∀ c, CopyOf base phs c → CopyOf base (ph :: phs) c := by
        intro c ⟨ph', hmem, hrest⟩
        exact ⟨ph', List.mem_cons_of_mem _ hmem, hrest⟩
      unfold copySegments
      split
      case h_1 l' hl' =>
        rw [hl'] at heq
        exact ⟨memory, reads, copies, heq, hreads, hcopies⟩
      case h_2 l' hl' =>
        rw [hl'] at heq
        obtain ⟨memory', reads', copies', heq', hreads', hcopies'⟩ := ih l'
        have hl : l' = _ := heq
        refine ⟨memory', reads ++ reads', copies ++ copies', ?_, fun r hr => ?_, fun c hc => ?_⟩
        · rw [heq', hl]
          simp
        · rcases List.mem_append.1 hr with h | h
          · exact hreads r h
          · exact hreads' r h
        · rcases List.mem_append.1 hc with h | h
          · exact hcopies c h
          · exact hmore c (hcopies' c h)

theorem mapImage_fst (env : Env) (phs : List Phdr) (base : Addr) (l : Loader) :
    (mapImage env phs base l).1 = (copySegments env base phs l).1 := by
  unfold mapImage
  split
  · rename_i l' hl'
    rw [hl']
  · rename_i l' hl'
    rw [hl']
    dsimp only
    split
    · rfl
    split
    · rfl
    split
    · rfl
    · rfl

theorem mapImage_snd {env : Env} {phs : List Phdr} {base : Addr} {l : Loader} {image : Image}
    (h : (mapImage env phs base l).2 = some image) : image.phs = phs ∧ image.base = base := by
  unfold mapImage at h
  split at h
  · cases h
  dsimp only at h
  split at h
  · cases h
  split at h
  · cases h
  split at h
  · cases h
  · cases h
    exact ⟨rfl, rfl⟩

/-! ### Relocations -/

theorem relocateEntry_cases (env : Env) (lo : Loaded) (r : Addr) (l : Loader) :
    relocateEntry env lo r l = (l, false) ∨
      ∃ w, relocateEntry env lo r l = (l.relocate (slotAt l.memory lo.base r) w, true) := by
  unfold relocateEntry
  dsimp only
  split
  · exact .inr ⟨_, rfl⟩
  split
  · split
    · exact .inl rfl
    split
    · exact .inr ⟨_, rfl⟩
    · exact .inr ⟨_, rfl⟩
  · exact .inl rfl

/-- Relocations that spare the addresses of `T`, where the entries lie, relocate the words that the
entries named before. -/
theorem relocateEntries_spec (env : Env) (lo : Loaded) (T : Addr → Prop) (m : Memory) (n : Nat)
    (r : Addr) (l : Loader) : ∃ memory slots,
      (relocateEntries env lo n r l).1 =
        { l with
          memory := memory
          relocated := l.relocated ++ slots } ∧
      ((∀ x, T x → l.memory x = m x) → (∀ j < 8 * n, T (r + BitVec.ofNat 32 j)) →
        (∀ k < n, ∀ x, T x → ¬ Covers (slotAt m lo.base (r + BitVec.ofNat 32 (8 * k))) 4 x) →
        (∀ x, T x → memory x = m x) ∧
          ∀ slot ∈ slots, ∃ k < n, slot = slotAt m lo.base (r + BitVec.ofNat 32 (8 * k))) := by
  induction n generalizing r l with
  | zero => exact ⟨l.memory, [], by simp [relocateEntries], fun hsame _ _ => ⟨hsame, nofun⟩⟩
  | succ n ih =>
      unfold relocateEntries
      rcases relocateEntry_cases env lo r l with heq | ⟨w, heq⟩
      · rw [heq]
        exact ⟨l.memory, [], by simp, fun hsame _ _ => ⟨hsame, nofun⟩⟩
      rw [heq]
      obtain ⟨memory, slots, hfinal, hspec⟩ :=
        ih (r + 8) (l.relocate (slotAt l.memory lo.base r) w)
      refine ⟨memory, slotAt l.memory lo.base r :: slots, ?_, fun hsame hin hapart => ?_⟩
      · show (relocateEntries env lo n (r + 8) _).1 = _
        rw [hfinal]
        simp [Loader.relocate]
      have hnext : ∀ j, r + 8 + BitVec.ofNat 32 j = r + BitVec.ofNat 32 (8 + j) := by
        intro j
        rw [BitVec.ofNat_add, BitVec.add_assoc]
        rfl
      have hstep : ∀ k, 8 + 8 * k = 8 * (k + 1) := by
        intro k
        omega
      have hword : l.memory.word r = m.word r :=
        word_congr fun k hk => hsame _ (hin k (by omega))
      have hslot : slotAt l.memory lo.base r = slotAt m lo.base (r + BitVec.ofNat 32 (8 * 0)) := by
        have hzero : r + BitVec.ofNat 32 (8 * 0) = r := BitVec.add_zero r
        rw [slotAt, hword, hzero]
        rfl
      obtain ⟨hkept, hslots⟩ := hspec
        (fun x hx => by
          have hclear := hapart 0 (Nat.succ_pos n) x hx
          rw [← hslot] at hclear
          exact (storeWord_of_not_covers hclear).trans (hsame x hx))
        (fun j hj => by
          rw [hnext]
          exact hin (8 + j) (by omega))
        (fun k hk x hx => by
          rw [hnext, hstep]
          exact hapart (k + 1) (Nat.succ_lt_succ hk) x hx)
      refine ⟨hkept, fun slot hmem => ?_⟩
      rcases List.mem_cons.1 hmem with h | h
      · exact ⟨0, Nat.succ_pos n, h.trans hslot⟩
      · obtain ⟨k, hk, hat⟩ := hslots slot h
        refine ⟨k + 1, Nat.succ_lt_succ hk, ?_⟩
        rw [hat, hnext, hstep]

/-- The addresses of the relocation tables. -/
def InTables (image : Image) (x : Addr) : Prop :=
  ∃ t ∈ image.relocationTables, ∃ j < 8 * t.2, x = t.1 + BitVec.ofNat 32 j

/-- A word that some entry of the image names. -/
def SlotOf (memory : Memory) (image : Image) (slot : Addr) : Prop :=
  ∃ t ∈ image.relocationTables, ∃ k < t.2,
    slot = slotAt memory image.base (t.1 + BitVec.ofNat 32 (8 * k))

theorem relocatePass_spec (env : Env) (lo : Loaded) (image : Image) (hbase : lo.base = image.base)
    (r : Addr) (size : BitVec 32)
    (htable : r ≠ 0 → (r, size.toNat / 8) ∈ image.relocationTables) (m : Memory) (l : Loader) :
    ∃ memory slots,
      (relocatePass env lo r size l).1 =
        { l with
          memory := memory
          relocated := l.relocated ++ slots } ∧
      ((∀ x, InTables image x → l.memory x = m x) →
        (∀ slot, SlotOf m image slot → ∀ x, InTables image x → ¬ Covers slot 4 x) →
        (∀ x, InTables image x → memory x = m x) ∧ ∀ slot ∈ slots, SlotOf m image slot) := by
  unfold relocatePass
  split
  case isTrue => exact ⟨l.memory, [], by simp, fun hsame _ => ⟨hsame, nofun⟩⟩
  case isFalse hr =>
    have hmem := htable hr
    obtain ⟨memory, slots, heq, hspec⟩ :=
      relocateEntries_spec env lo (InTables image) m (size.toNat / 8) r l
    refine ⟨memory, slots, heq, fun hsame hapart => ?_⟩
    rw [hbase] at hspec
    obtain ⟨hkept, hslots⟩ := hspec hsame (fun j hj => ⟨_, hmem, j, hj, rfl⟩)
      (fun k hk x hx => hapart _ ⟨_, hmem, k, hk, rfl⟩ x hx)
    refine ⟨hkept, fun slot hslot => ?_⟩
    obtain ⟨k, hk, hat⟩ := hslots slot hslot
    exact ⟨_, hmem, k, hk, hat⟩

theorem relocateImage_spec (env : Env) (image : Image) (l : Loader) : ∃ memory slots,
    (relocateImage env image l).1 =
      { l with
        memory := memory
        relocated := l.relocated ++ slots } ∧
    ((∀ slot, SlotOf l.memory image slot → ∀ x, InTables image x → ¬ Covers slot 4 x) →
      ∀ slot ∈ slots, SlotOf l.memory image slot) := by
  obtain ⟨memory, slots, heq, hspec⟩ :=
    relocatePass_spec env (image.loaded l.memory) image rfl image.tables.rel image.tables.relsz
      (fun hr => List.mem_filter.2
        ⟨List.mem_cons_self, decide_eq_true hr⟩) l.memory l
  unfold relocateImage
  dsimp only
  split
  case h_1 l' hl' =>
    rw [hl'] at heq
    exact ⟨memory, slots, heq, fun hapart => (hspec (fun x _ => rfl) hapart).2⟩
  case h_2 l' hl' =>
    rw [hl'] at heq
    obtain ⟨memory', slots', heq', hspec'⟩ :=
      relocatePass_spec env (image.loaded l.memory) image rfl image.tables.jmprel
        image.tables.jmprelsz (fun hr => List.mem_filter.2
          ⟨List.mem_cons_of_mem _ List.mem_cons_self, decide_eq_true hr⟩) l.memory l'
    have hl : l' = _ := heq
    refine ⟨memory', slots ++ slots', ?_, fun hapart => ?_⟩
    · rw [heq', hl]
      simp
    · obtain ⟨hkept, hslots⟩ := hspec (fun x _ => rfl) hapart
      have hkept' : ∀ x, InTables image x → l'.memory x = l.memory x := by
        rw [hl]
        exact hkept
      intro slot hslot
      rcases List.mem_append.1 hslot with h | h
      · exact hslots slot h
      · exact (hspec' hkept' hapart).2 slot h

/-! ### Permissions and what follows -/

/-- A protection covers the pages of its segment. -/
def ProtectionOf (base : Addr) (phs : List Phdr) (p : Protection) : Prop :=
  ∃ ph ∈ phs, ph.pType = ptLoad ∧ p.start = base + pageDown ph.pVaddr ∧
    p.size = base + pageUp (ph.pVaddr + ph.pMemsz) - p.start

theorem protect_spec (env : Env) (base : Addr) (phs : List Phdr) (l : Loader) : ∃ ps,
    phs.foldl (fun l ph => protect env base ph l) l =
        { l with protections := l.protections ++ ps } ∧
      ∀ p ∈ ps, ProtectionOf base phs p := by
  induction phs generalizing l with
  | nil => exact ⟨[], by simp, nofun⟩
  | cons ph phs ih =>
      have hfirst : ∃ ps, protect env base ph l = { l with protections := l.protections ++ ps } ∧
          ∀ p ∈ ps, ProtectionOf base (ph :: phs) p := by
        unfold protect
        split
        case isTrue => exact ⟨[], by simp, nofun⟩
        case isFalse hload =>
          refine ⟨_, rfl, fun p hp => ?_⟩
          rw [List.mem_singleton.1 hp]
          exact ⟨ph, List.mem_cons_self, not_not.1 hload, rfl, rfl⟩
      obtain ⟨ps, heq, hps⟩ := hfirst
      obtain ⟨ps', heq', hps'⟩ := ih (protect env base ph l)
      refine ⟨ps ++ ps', ?_, fun p hp => ?_⟩
      · rw [List.foldl_cons, heq', heq]
        simp
      · rcases List.mem_append.1 hp with h | h
        · exact hps p h
        · obtain ⟨ph', hmem, hrest⟩ := hps' p h
          exact ⟨ph', List.mem_cons_of_mem _ hmem, hrest⟩

theorem runConstructors_spec (env : Env) (n : Nat) (fns : Addr) (l : Loader) : ∃ memory called,
    runConstructors env n fns l = { l with memory := memory, called := called } := by
  induction n generalizing fns l with
  | zero => exact ⟨l.memory, l.called, rfl⟩
  | succ n ih =>
      unfold runConstructors
      dsimp only
      split
      · obtain ⟨memory, called, heq⟩ := ih (fns + 4)
          { l with
            memory := env.call (l.memory.word fns) l.memory
            called := l.called ++ [l.memory.word fns] }
        exact ⟨memory, called, heq⟩
      · exact ih (fns + 4) l

/-- The constructors of an image, if it has any. -/
theorem constructors_spec (env : Env) (image : Image) (l : Loader) : ∃ memory called,
    (if image.tables.initArray ≠ 0 ∧ image.tables.initArraysz ≠ 0 then
      runConstructors env (image.tables.initArraysz.toNat / 4)
        (image.base + image.tables.initArray) l
    else l) = { l with memory := memory, called := called } := by
  split
  · exact runConstructors_spec env _ _ l
  · exact ⟨l.memory, l.called, rfl⟩

theorem findWanted_spec (env : Env) (lo : Loaded) (want : List (List UInt8)) (i : Nat)
    (l : Loader) : ∃ out, (findWanted env lo want i l).1 = { l with out := out } := by
  induction want generalizing i l with
  | nil => exact ⟨l.out, rfl⟩
  | cons name want ih =>
      unfold findWanted
      dsimp only
      split
      · exact ⟨_, rfl⟩
      · obtain ⟨out, heq⟩ := ih (i + 1) { l with out := l.out.set i (resolve env l.memory lo name) }
        exact ⟨out, heq⟩

/-- What is recorded from the relocations on. -/
theorem finishImage_spec (env : Env) (want : List (List UInt8)) (image : Image) (l : Loader) :
    ∃ slots ps, (finishImage env want image l).1.relocated = l.relocated ++ slots ∧
      (finishImage env want image l).1.protections = l.protections ++ ps ∧
      (finishImage env want image l).1.fileReads = l.fileReads ∧
      (finishImage env want image l).1.zeroed = l.zeroed ∧
      (finishImage env want image l).1.copied = l.copied ∧
      (∀ p ∈ ps, ProtectionOf image.base image.phs p) ∧
      ((∀ slot, SlotOf l.memory image slot → ∀ x, InTables image x → ¬ Covers slot 4 x) →
        ∀ slot ∈ slots, SlotOf l.memory image slot) := by
  obtain ⟨memory, slots, hrelocated, hslots⟩ := relocateImage_spec env image l
  unfold finishImage
  dsimp only
  split
  case h_1 l' hl' =>
    rw [hl'] at hrelocated
    have hl : l' = _ := hrelocated
    rw [hl]
    exact ⟨slots, [], rfl, by simp, rfl, rfl, rfl, nofun, hslots⟩
  case h_2 l' hl' =>
    rw [hl'] at hrelocated
    have hl : l' = _ := hrelocated
    obtain ⟨ps, hprotected, hps⟩ := protect_spec env image.base image.phs l'
    rw [hprotected, hl]
    obtain ⟨memory', called, hran⟩ := constructors_spec env image
      { l with
        memory := memory
        relocated := l.relocated ++ slots
        protections := l.protections ++ ps }
    rw [hran]
    obtain ⟨out, hfound⟩ := findWanted_spec env (image.loaded l.memory) want 0
      { l with
        memory := memory'
        relocated := l.relocated ++ slots
        protections := l.protections ++ ps
        called := called }
    rw [hfound]
    exact ⟨slots, ps, rfl, rfl, rfl, rfl, rfl, hps, hslots⟩

/-! ### The mapping's bounds -/

theorem widen_spec (b : BitVec 32 × BitVec 32) (ph : Phdr) :
    (widen b ph).1.toNat ≤ b.1.toNat ∧ b.2.toNat ≤ (widen b ph).2.toNat ∧
      (ph.pType = ptLoad → (widen b ph).1.toNat ≤ ph.pVaddr.toNat ∧
        (ph.pVaddr + ph.pMemsz).toNat ≤ (widen b ph).2.toNat) ∧
      ∀ top : Nat, b.2.toNat ≤ top →
        (ph.pType = ptLoad → (ph.pVaddr + ph.pMemsz).toNat ≤ top) →
        (widen b ph).2.toNat ≤ top := by
  unfold widen
  simp only [BitVec.lt_def]
  split
  case isTrue hother =>
    exact ⟨le_refl _, le_refl _, fun h => absurd h hother, fun top hb _ => hb⟩
  case isFalse hload =>
    have hload' := not_not.1 hload
    refine ⟨?_, ?_, fun _ => ⟨?_, ?_⟩, fun top hb hph => ?_⟩
    · dsimp only
      split <;> omega
    · dsimp only
      split <;> omega
    · dsimp only
      split <;> omega
    · dsimp only
      split <;> omega
    · have hph' := hph hload'
      dsimp only
      split <;> omega

theorem foldl_widen (phs : List Phdr) (b : BitVec 32 × BitVec 32) :
    (∀ ph ∈ phs, ph.pType = ptLoad → (phs.foldl widen b).1.toNat ≤ ph.pVaddr.toNat ∧
        (ph.pVaddr + ph.pMemsz).toNat ≤ (phs.foldl widen b).2.toNat) ∧
      (phs.foldl widen b).1.toNat ≤ b.1.toNat ∧ b.2.toNat ≤ (phs.foldl widen b).2.toNat ∧
      ∀ top : Nat, b.2.toNat ≤ top →
        (∀ ph ∈ phs, ph.pType = ptLoad → (ph.pVaddr + ph.pMemsz).toNat ≤ top) →
        (phs.foldl widen b).2.toNat ≤ top := by
  induction phs generalizing b with
  | nil => exact ⟨nofun, le_refl _, le_refl _, fun top hb _ => hb⟩
  | cons ph phs ih =>
      obtain ⟨hall, hlow, hhigh, htop⟩ := ih (widen b ph)
      obtain ⟨hlow', hhigh', hph', htop'⟩ := widen_spec b ph
      rw [List.foldl_cons]
      refine ⟨fun q hq hload => ?_, hlow.trans hlow', hhigh'.trans hhigh, fun top hb hphs => ?_⟩
      · rcases List.mem_cons.1 hq with rfl | hq
        · exact ⟨hlow.trans (hph' hload).1, (hph' hload).2.trans hhigh⟩
        · exact hall q hq hload
      · exact htop top (htop' top hb (hphs ph List.mem_cons_self))
          fun q hq => hphs q (List.mem_cons_of_mem _ hq)

/-- The pages of a segment, counted from the mapping's first page. -/
theorem segment_offsets {phs : List Phdr} (hfit : SegmentsFit phs) {ph : Phdr} (hph : ph ∈ phs)
    (hload : ph.pType = ptLoad) :
    (pageDown (bounds phs).1).toNat ≤ (pageDown ph.pVaddr).toNat ∧
      (pageDown ph.pVaddr).toNat ≤ ph.pVaddr.toNat ∧
      ph.pVaddr.toNat + ph.pMemsz.toNat ≤ (pageUp (ph.pVaddr + ph.pMemsz)).toNat ∧
      (pageUp (ph.pVaddr + ph.pMemsz)).toNat - (pageDown (bounds phs).1).toNat ≤
        (spanOf phs).toNat := by
  obtain ⟨hall, -, -, htop⟩ := foldl_widen phs (-1, 0)
  have hend : ∀ q ∈ phs, q.pType = ptLoad →
      (q.pVaddr + q.pMemsz).toNat = q.pVaddr.toNat + q.pMemsz.toNat := by
    intro q hq hqload
    have hq' := (hfit q hq hqload).1
    rw [BitVec.toNat_add]
    omega
  have hhigh : (bounds phs).2.toNat ≤ 2 ^ 32 - 4096 := by
    apply htop _ (by decide)
    intro q hq hqload
    rw [hend q hq hqload]
    exact (hfit q hq hqload).1
  obtain ⟨hlow, htopmost⟩ := hall ph hph hload
  have hlow' : (bounds phs).1.toNat ≤ ph.pVaddr.toNat := hlow
  have htopmost' : (ph.pVaddr + ph.pMemsz).toNat ≤ (bounds phs).2.toNat := htopmost
  have hspan : (spanOf phs).toNat =
      (pageUp (bounds phs).2).toNat - (pageDown (bounds phs).1).toNat := by
    have hhighpage := toNat_pageUp hhigh
    have hlowpage := toNat_pageDown (bounds phs).1
    have hsum := hend ph hph hload
    have hsub := BitVec.toNat_sub (pageUp (bounds phs).2) (pageDown (bounds phs).1)
    unfold spanOf
    omega
  have hup := toNat_pageUp (htopmost'.trans hhigh)
  rw [hspan, hup, toNat_pageUp hhigh, toNat_pageDown, toNat_pageDown]
  have hsum := hend ph hph hload
  omega

/-- An address of the library, counted from the mapping's start. -/
theorem loadBase_add (phs : List Phdr) (base v : BitVec 32) :
    loadBase phs base + v = base + (v - pageDown (bounds phs).1) := by
  unfold loadBase
  bv_omega

theorem copy_within {env : Env} {phs : List Phdr} {base : Addr}
    (hmap : env.mmap (spanOf phs) = some base) (hfit : SegmentsFit phs) {c : Addr × Nat}
    (hc : CopyOf (loadBase phs base) phs c) : Within base (spanOf phs) c.1 c.2 := by
  obtain ⟨ph, hph, hload, hat, hsize⟩ := hc
  obtain ⟨hlow, hdown, hup, hspan⟩ := segment_offsets hfit hph hload
  have hfilesz := (hfit ph hph hload).2
  rw [hat, loadBase_add]
  apply within_of_offset (env.mmap_block _ _ hmap).2
  rw [BitVec.toNat_sub_of_le (BitVec.le_def.2 (hlow.trans hdown))]
  omega

theorem protection_within {env : Env} {phs : List Phdr} {base : Addr}
    (hmap : env.mmap (spanOf phs) = some base) (hfit : SegmentsFit phs) {p : Protection}
    (hp : ProtectionOf (loadBase phs base) phs p) :
    Within base (spanOf phs) p.start p.size.toNat := by
  obtain ⟨ph, hph, hload, hstart, hsize⟩ := hp
  obtain ⟨hlow, hdown, hup, hspan⟩ := segment_offsets hfit hph hload
  have hpages : p.size = pageUp (ph.pVaddr + ph.pMemsz) - pageDown ph.pVaddr := by
    rw [hsize, hstart]
    bv_omega
  rw [hpages, hstart, loadBase_add]
  apply within_of_offset (env.mmap_block _ _ hmap).2
  rw [BitVec.toNat_sub_of_le (BitVec.le_def.2 hlow),
    BitVec.toNat_sub_of_le (BitVec.le_def.2 (hdown.trans (by omega)))]
  omega

/-! ### The whole function -/

theorem openMapping_spec (env : Env) (out : List Addr) :
    ReadsInFile env.file (openMapping env out).1 ∧
      ∀ phs base, (openMapping env out).2 = some (phs, base) →
        env.mmap (spanOf phs) = some base ∧
          (openMapping env out).1.zeroed = [(base, (spanOf phs).toNat)] ∧
          (openMapping env out).1.copied = [] ∧ (openMapping env out).1.relocated = [] ∧
          (openMapping env out).1.protections = [] := by
  obtain ⟨reads, hheaders, hreads⟩ := readHeaders_spec env (start env out)
  unfold openMapping
  split
  case h_1 l' hl' =>
    rw [hl'] at hheaders
    have hl : l' = _ := hheaders
    rw [hl]
    exact ⟨hreads, nofun⟩
  case h_2 l' phs hl' =>
    rw [hl'] at hheaders
    have hl : l' = _ := hheaders
    rw [hl]
    split
    · exact ⟨hreads, nofun⟩
    split
    · exact ⟨hreads, nofun⟩
    case h_2 base hmap =>
      refine ⟨hreads, fun phs' base' heq => ?_⟩
      cases heq
      exact ⟨hmap, rfl, rfl, rfl, rfl⟩

/-- What the function records once the mapping is there. -/
theorem elfloadOpen_spec {env : Env} {out : List Addr} {l : Loader} {phs : List Phdr} {base : Addr}
    (hopen : openMapping env out = (l, some (phs, base))) (want : List (List UInt8)) :
    ∃ reads copies slots ps,
      (elfloadOpen env want out).fileReads = l.fileReads ++ reads ∧
      (elfloadOpen env want out).zeroed = l.zeroed ∧
      (elfloadOpen env want out).copied = l.copied ++ copies ∧
      (elfloadOpen env want out).relocated = l.relocated ++ slots ∧
      (elfloadOpen env want out).protections = l.protections ++ ps ∧
      (∀ r ∈ reads, ∀ k < r.2, r.1 + k < env.file.length) ∧
      (∀ c ∈ copies, CopyOf (loadBase phs base) phs c) ∧
      (∀ p ∈ ps, ProtectionOf (loadBase phs base) phs p) ∧
      (ImageFits env phs base l → ∀ slot ∈ slots, Within base (spanOf phs) slot 4) := by
  obtain ⟨memory, reads, copies, hcopy, hreads, hcopies⟩ :=
    copySegments_spec env (loadBase phs base) phs l
  rw [← mapImage_fst] at hcopy
  unfold elfloadOpen
  rw [hopen]
  dsimp only
  split
  case h_1 l' hl' =>
    rw [hl'] at hcopy
    have heq : l' = _ := hcopy
    rw [heq]
    exact ⟨reads, copies, [], [], rfl, rfl, rfl, by simp, by simp, hreads, hcopies, nofun,
      fun _ => nofun⟩
  case h_2 l' image hl' =>
    obtain ⟨hphs, hbase⟩ := mapImage_snd (congrArg Prod.snd hl')
    obtain ⟨slots, ps, hslots, hps, hread, hzero, hcopied, hprotected, hrelocs⟩ :=
      finishImage_spec env want image l'
    have hfits : ImageFits env phs base l → ∀ slot ∈ slots, Within base (spanOf phs) slot 4 := by
      intro himage
      have hrelocations := himage image (congrArg Prod.snd hl')
      rw [hl'] at hrelocations
      have hslotsOf := hrelocs (by
        rintro slot ⟨t, ht, k, hk, rfl⟩ x ⟨t', ht', j, hj, rfl⟩
        exact (hrelocations t ht k hk).2 t' ht' j hj)
      intro slot hslot
      obtain ⟨t, ht, k, hk, rfl⟩ := hslotsOf slot hslot
      exact (hrelocations t ht k hk).1
    rw [hl'] at hcopy
    have heq : l' = _ := hcopy
    rw [hphs, hbase] at hprotected
    rw [heq] at hslots hps hread hzero hcopied
    rw [heq]
    split
    · rename_i l'' hl''
      rw [hl''] at hslots hps hread hzero hcopied
      exact ⟨reads, copies, slots, ps, hread, hzero, hcopied, hslots, hps, hreads, hcopies,
        hprotected, hfits⟩
    · rename_i l'' hl''
      rw [hl''] at hslots hps hread hzero hcopied
      exact ⟨reads, copies, slots, ps, hread, hzero, hcopied, hslots, hps, hreads, hcopies,
        hprotected, hfits⟩

/-- What `elfload_open` reads lies in the file and what it zero-fills in its mapping. What it copies
and protects lies in the mapping when the segments fit, and what it relocates when the relocations
fit. -/
theorem accesses_inside (env : Env) (want : List (List UInt8)) (out : List Addr) :
    ReadsInFile env.file (elfloadOpen env want out) ∧
      ∀ phs base, (openMapping env out).2 = some (phs, base) →
        (∀ z ∈ (elfloadOpen env want out).zeroed, Within base (spanOf phs) z.1 z.2) ∧
        (SegmentsFit phs →
          (∀ c ∈ (elfloadOpen env want out).copied, Within base (spanOf phs) c.1 c.2) ∧
          ∀ p ∈ (elfloadOpen env want out).protections,
            Within base (spanOf phs) p.start p.size.toNat) ∧
        (ImageFits env phs base (openMapping env out).1 →
          ∀ slot ∈ (elfloadOpen env want out).relocated, Within base (spanOf phs) slot 4) := by
  obtain ⟨hopenreads, hopen⟩ := openMapping_spec env out
  cases hmapping : openMapping env out with
  | mk l mapped =>
  rw [hmapping] at hopenreads hopen
  cases mapped with
  | none =>
      have hnone : elfloadOpen env want out = l := by
        unfold elfloadOpen
        rw [hmapping]
      rw [hnone]
      exact ⟨hopenreads, nofun⟩
  | some mapping =>
      obtain ⟨phs, base⟩ := mapping
      obtain ⟨hmap, hzeroed, hcopied, hrelocated, hprotections⟩ := hopen phs base rfl
      obtain ⟨reads, copies, slots, ps, hread, hzero, hcopy, hslots, hps, hreads, hcopies,
        hprotected, hfits⟩ := elfloadOpen_spec hmapping want
      constructor
      · intro r hr
        rw [hread] at hr
        rcases List.mem_append.1 hr with h | h
        · exact hopenreads r h
        · exact hreads r h
      intro phs' base' hsome
      cases hsome
      refine ⟨fun z hz => ?_, fun hfit => ⟨fun c hc => ?_, fun p hp => ?_⟩,
        fun himage slot hslot => ?_⟩
      · rw [hzero, hzeroed] at hz
        have hblock := within_of_offset (d := 0#32) (env.mmap_block _ _ hmap).2
          (Nat.zero_add _).le
        rw [BitVec.add_zero] at hblock
        rw [List.mem_singleton.1 hz]
        exact hblock
      · rw [hcopy, hcopied, List.nil_append] at hc
        exact copy_within hmap hfit (hcopies c hc)
      · rw [hps, hprotections, List.nil_append] at hp
        exact protection_within hmap hfit (hprotected p hp)
      · rw [hslots, hrelocated, List.nil_append] at hslot
        exact hfits himage slot hslot

def leWords (ws : List Nat) : List UInt8 :=
  ws.flatMap fun w => [w.toUInt8, (w / 2 ^ 8).toUInt8, (w / 2 ^ 16).toUInt8, (w / 2 ^ 24).toUInt8]

/-- A library of one segment and one relative relocation, of the word at `offset`. -/
def library (offset : Nat) : List UInt8 :=
  leWords [0x464C457F, 0x00010101, 0, 0, 0x00280003, 1, 0, 0x34, 0, 0, 0x00200034, 2, 0,
    1, 0, 0, 0, 0xB4, 0xBC, 7, 0x1000,
    2, 0x74, 0x74, 0, 0x30, 0x30, 6, 4,
    6, 0xA4, 5, 0xA4, 4, 0xA4, 17, 0xAC, 18, 8, 0, 0,
    0, 0,
    offset, 23]

def process (file : List UInt8) : Env where
  opens := true
  file := file
  malloc := some fun _ => 0
  mmap := fun span => if span = 0x1000 then some 0x40000000 else none
  mmap_block := by
    intro span base hmap
    split at hmap
    case isTrue hspan =>
      cases hmap
      rw [hspan]
      decide
    case isFalse => cases hmap
  memory := fun _ => 0
  dlsym := fun _ => 0
  a1000CxaTypeMatch := 0x1000
  a1000CxaBeginCleanup := 0x1004
  a1000CxaCallUnexpected := 0x1008
  mprotect := fun _ _ _ _ _ => true
  call := fun _ memory => memory

def libraryPhs : List Phdr := [⟨1, 0, 0, 0xB4, 0xBC, 7⟩, ⟨2, 0x74, 0x74, 0x30, 0x30, 6⟩]

theorem accesses_inside_library :
    (∀ c ∈ (elfloadOpen (process (library 0x30)) [] []).copied,
        Within 0x40000000 (spanOf libraryPhs) c.1 c.2) ∧
      (∀ p ∈ (elfloadOpen (process (library 0x30)) [] []).protections,
        Within 0x40000000 (spanOf libraryPhs) p.start p.size.toNat) ∧
      ∀ slot ∈ (elfloadOpen (process (library 0x30)) [] []).relocated,
        Within 0x40000000 (spanOf libraryPhs) slot 4 := by
  have hopen : (openMapping (process (library 0x30)) []).2 = some (libraryPhs, 0x40000000) := by
    decide +kernel
  obtain ⟨-, hsegments, hrelocations⟩ :=
    (accesses_inside (process (library 0x30)) [] []).2 libraryPhs 0x40000000 hopen
  obtain ⟨hcopied, hprotected⟩ := hsegments (by decide)
  exact ⟨hcopied, hprotected, hrelocations (by decide +kernel)⟩

/-- The loader relocates a word two pages behind the start of a mapping of one page. -/
theorem relocation_leaves_mapping :
    (openMapping (process (library 0x2000)) []).2 = some (libraryPhs, 0x40000000) ∧
      ¬ ∀ slot ∈ (elfloadOpen (process (library 0x2000)) [] []).relocated,
        Within 0x40000000 (spanOf libraryPhs) slot 4 := by
  refine ⟨by decide +kernel, fun hinside => ?_⟩
  have hslots : (elfloadOpen (process (library 0x2000)) [] []).relocated = [0x40002000] := by
    decide +kernel
  rw [hslots] at hinside
  have hslot := hinside 0x40002000 (List.mem_singleton_self _)
  revert hslot
  decide

end LineageA1000.Elf
