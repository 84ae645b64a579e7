import LineageA1000.Shim.Pixel
import Mathlib.Data.Nat.Basic
import Mathlib.Tactic.Ring

/-!
# The loops over the pixels

`processWalk` counts the way the code counts: a 32-bit counter that may wrap, a pointer that moves
on with it, a test before every block and every pixel. It may run on, and it may reach outside the
memory it was given. Over a buffer that holds the pixels it does neither, and is `process`; over a
shorter one it always ends up outside.
-/

namespace LineageA1000.Shim

/-- How a walk over memory ends: with a value, outside the memory, or not within its fuel. -/
inductive Walk (α : Type) where
  | done (a : α)
  | fault
  | running
  deriving DecidableEq, Repr

namespace Walk

variable {α β : Type}

def bind : Walk α → (α → Walk β) → Walk β
  | done a, f => f a
  | fault, _ => fault
  | running, _ => running

@[simp] theorem bind_done (a : α) (f : α → Walk β) : (done a).bind f = f a := rfl

@[simp] theorem bind_fault (f : α → Walk β) : (fault : Walk α).bind f = fault := rfl

@[simp] theorem bind_running (f : α → Walk β) : (running : Walk α).bind f = running := rfl

theorem bind_ne_fault {x : Walk α} {f : α → Walk β} (hx : x ≠ fault)
    (hf : ∀ a, x = done a → f a ≠ fault) : x.bind f ≠ fault := by
  cases x with
  | done a => exact hf a rfl
  | fault => exact absurd rfl hx
  | running =>
      intro heq
      cases heq

end Walk

/-- Bytes written at an offset. -/
def store (m : List Byte) (b : Nat) (s : List Byte) : List Byte :=
  m.take b ++ s ++ m.drop (b + s.length)

def blockWalk (rotate : Bool) (npix : Word) :
    Nat → Word → Nat → Lanes → List Byte → Walk (Word × Nat × Lanes × List Byte)
  | 0, _, _, _, _ => .running
  | fuel + 1, i, b, acc, m =>
      -- The sum is taken in 32 bits and may wrap.
      if i + 16 ≤ npix then
        if b + 64 ≤ m.length then
          let px := (m.drop b).take 64
          let s := if rotate then storeRotated 16 px else px
          let m := if rotate then store m b s else m
          blockWalk rotate npix fuel (i + 16) (b + 64) (accumulate acc s) m
        else .fault
      else .done (i, b, acc, m)

def pixelWalk (rotate : Bool) (npix : Word) :
    Nat → Word → Nat → Word → List Byte → Walk (Word × List Byte)
  | 0, _, _, _, _ => .running
  | fuel + 1, i, b, h, m =>
      if i < npix then
        match m.drop b with
        | r :: g :: bl :: a :: _ =>
            let v := if rotate then rotateWord (pack r g bl a) else pack r g bl a
            let m := if rotate then store m b (unpack v) else m
            pixelWalk rotate npix fuel (i + 1) (b + 4) (h * 2654435761 + v) m
        | _ => .fault
      else .done (h, m)

/-- The two loops of `process`, from offset zero of the memory mapped. -/
def processWalk (fuel : Nat) (m : List Byte) (npix : Word) (rotate : Bool) :
    Walk (Word × List Byte) :=
  (blockWalk rotate npix fuel 0 0 (fun _ => 0) m).bind fun (i, b, acc, m) =>
    pixelWalk rotate npix fuel i b (laneHash acc) m

/-! ### The counter does not wrap below a gibipixel -/

theorem counter_add (i n : Nat) :
    BitVec.ofNat 32 i + BitVec.ofNat 32 n = BitVec.ofNat 32 (i + n) :=
  (BitVec.ofNat_add i n).symm

theorem counter_lt {i : Nat} {npix : Word} (h : i < 2 ^ 32) :
    BitVec.ofNat 32 i < npix ↔ i < npix.toNat := by
  rw [BitVec.lt_def, BitVec.toNat_ofNat, Nat.mod_eq_of_lt h]

theorem block_le {i : Nat} {npix : Word} (h : i ≤ 2 ^ 30) :
    BitVec.ofNat 32 i + 16 ≤ npix ↔ i + 16 ≤ npix.toNat := by
  have hadd : BitVec.ofNat 32 i + 16 = BitVec.ofNat 32 (i + 16) := counter_add i 16
  rw [hadd, BitVec.le_def, BitVec.toNat_ofNat, Nat.mod_eq_of_lt (by omega)]

/-! ### The loops over a buffer that holds the pixels -/

theorem length_storeRotated (n : Nat) (px : List Byte) : (storeRotated n px).length = 4 * n := by
  unfold storeRotated
  induction n with
  | zero => rfl
  | succ n ih =>
      rw [List.range_succ, List.flatMap_append, List.length_append, ih]
      simp only [List.flatMap_cons, List.flatMap_nil, List.append_nil, List.length_cons,
        List.length_nil]
      omega

theorem length_store {m s : List Byte} {b : Nat} (h : b + s.length ≤ m.length) :
    (store m b s).length = m.length := by
  unfold store
  rw [List.length_append, List.length_append, List.length_take, List.length_drop]
  omega

theorem store_append (l s t rest : List Byte) (h : s.length = t.length) :
    store (l ++ (t ++ rest)) l.length s = l ++ (s ++ rest) := by
  unfold store
  rw [List.take_left' rfl, List.drop_append, List.drop_eq_nil_of_le (by omega), List.nil_append,
    show l.length + s.length - l.length = s.length by omega, h, List.drop_left' rfl,
    List.append_assoc]

theorem blockLoop_append (rotate : Bool) (k : Nat) (acc : Lanes) {m : List Byte}
    (tail : List Byte) (hm : m.length = 64 * k) :
    blockLoop rotate k acc (m ++ tail) =
      ((blockLoop rotate k acc m).1, (blockLoop rotate k acc m).2 ++ tail) := by
  induction k generalizing acc m with
  | zero =>
      have hnil : m = [] := List.eq_nil_of_length_eq_zero (by omega)
      subst hnil
      rfl
  | succ k ih =>
      have htake : (m ++ tail).take 64 = m.take 64 := List.take_append_of_le_length (by omega)
      have hdrop : (m ++ tail).drop 64 = m.drop 64 ++ tail :=
        List.drop_append_of_le_length (by omega)
      have hrest : (m.drop 64).length = 64 * k := by
        rw [List.length_drop]
        omega
      simp only [blockLoop, htake, hdrop, ih _ hrest, List.append_assoc]

theorem length_blockLoop (rotate : Bool) (k : Nat) (acc : Lanes) {m : List Byte}
    (hm : m.length = 64 * k) : (blockLoop rotate k acc m).2.length = m.length := by
  cases rotate with
  | false => rw [blockLoop_read]
  | true =>
      rw [blockLoop_rotate k acc hm]
      exact length_rotatePixels _ m

/-- From offset `l.length` on, the loop does to the rest what `blockLoop` does. -/
theorem blockWalk_eq (rotate : Bool) {npix : Word} (k : Nat) {fuel : Nat} (i : Nat) (acc : Lanes)
    (l rest : List Byte) (hk : k = (npix.toNat - i) / 16) (hfuel : k < fuel)
    (hi : i ≤ npix.toNat) (hl : l.length = 4 * i)
    (hroom : 4 * npix.toNat ≤ l.length + rest.length) (hsmall : l.length + rest.length ≤ 2 ^ 32) :
    blockWalk rotate npix fuel (BitVec.ofNat 32 i) (4 * i) acc (l ++ rest) =
      .done (BitVec.ofNat 32 (i + 16 * k), 4 * (i + 16 * k), (blockLoop rotate k acc rest).1,
        l ++ (blockLoop rotate k acc rest).2) := by
  induction k generalizing fuel i acc l rest with
  | zero =>
      obtain ⟨fuel, rfl⟩ := Nat.exists_eq_add_of_lt hfuel
      have hend : ¬BitVec.ofNat 32 i + 16 ≤ npix := by
        rw [block_le (by omega)]
        omega
      rw [blockWalk, if_neg hend]
      rfl
  | succ k ih =>
      obtain ⟨fuel, rfl⟩ := Nat.exists_eq_add_of_lt hfuel
      have hblock : BitVec.ofNat 32 i + 16 ≤ npix := by
        rw [block_le (by omega)]
        omega
      obtain ⟨px, tail, rfl, hpx⟩ : ∃ px tail, rest = px ++ tail ∧ px.length = 64 := by
        refine ⟨rest.take 64, rest.drop 64, (List.take_append_drop 64 rest).symm, ?_⟩
        rw [List.length_take]
        omega
      rw [List.length_append] at hroom hsmall
      have hread : (l ++ (px ++ tail)).drop (4 * i) = px ++ tail := List.drop_left' hl
      have htake : (px ++ tail).take 64 = px := List.take_left' hpx
      have hdrop : (px ++ tail).drop 64 = tail := List.drop_left' hpx
      have hin : 4 * i + 64 ≤ (l ++ (px ++ tail)).length := by
        simp only [List.length_append]
        omega
      have hnext : BitVec.ofNat 32 i + 16 = BitVec.ofNat 32 (i + 16) := counter_add i 16
      rw [blockWalk, if_pos hblock, if_pos hin, hnext, show 4 * i + 64 = 4 * (i + 16) by omega]
      simp only [hread, htake, blockLoop, hdrop]
      -- A reading pass leaves the block, and writing it back would change nothing.
      generalize hs : (if rotate then storeRotated 16 px else px) = s
      have hlength : s.length = 64 := by
        rw [← hs]
        split
        · exact length_storeRotated 16 px
        · exact hpx
      have hstore : (if rotate then store (l ++ (px ++ tail)) (4 * i) s else l ++ (px ++ tail)) =
          (l ++ s) ++ tail := by
        rw [List.append_assoc]
        split
        · rw [← hl, store_append l s px tail (hlength.trans hpx.symm)]
        · rw [← hs, if_neg (by assumption)]
      have hl' : (l ++ s).length = 4 * (i + 16) := by
        rw [List.length_append]
        omega
      rw [hstore, ih (i + 16) _ (l ++ s) tail (by omega) (by omega) (by omega) hl' (by omega)
        (by omega), show i + 16 + 16 * k = i + 16 * (k + 1) by omega, List.append_assoc]

theorem pixelWalk_eq (rotate : Bool) {npix : Word} (n : Nat) {fuel : Nat} (i : Nat) (h : Word)
    (l rest : List Byte) (hn : n = npix.toNat - i) (hfuel : n < fuel) (hi : i ≤ npix.toNat)
    (hl : l.length = 4 * i) (hroom : 4 * npix.toNat ≤ l.length + rest.length) :
    pixelWalk rotate npix fuel (BitVec.ofNat 32 i) (4 * i) h (l ++ rest) =
      .done ((pixelLoop rotate n h rest).1, l ++ (pixelLoop rotate n h rest).2) := by
  have hnpix := npix.isLt
  induction n generalizing fuel i h l rest with
  | zero =>
      obtain ⟨fuel, rfl⟩ := Nat.exists_eq_add_of_lt hfuel
      have hend : ¬BitVec.ofNat 32 i < npix := by
        rw [counter_lt (by omega)]
        omega
      rw [pixelWalk, if_neg hend]
      simp only [pixelLoop]
  | succ n ih =>
      obtain ⟨fuel, rfl⟩ := Nat.exists_eq_add_of_lt hfuel
      have hlt : BitVec.ofNat 32 i < npix := by
        rw [counter_lt (by omega)]
        omega
      obtain ⟨r, g, b, a, tail, rfl, -⟩ := exists_pixel (n := n) (m := rest) (by omega)
      have hread : (l ++ (r :: g :: b :: a :: tail)).drop (4 * i) = r :: g :: b :: a :: tail :=
        List.drop_left' hl
      have hnext : BitVec.ofNat 32 i + 1 = BitVec.ofNat 32 (i + 1) := counter_add i 1
      simp only [List.length_cons] at hroom
      rw [pixelWalk, if_pos hlt, hread, hnext, show 4 * i + 4 = 4 * (i + 1) by omega]
      simp only [pixelLoop]
      generalize hv : (if rotate then rotateWord (pack r g b a) else pack r g b a) = v
      generalize hs : (if rotate then unpack v else [r, g, b, a]) = s
      have hlength : s.length = 4 := by
        rw [← hs]
        split <;> rfl
      have hstore : (if rotate then store (l ++ (r :: g :: b :: a :: tail)) (4 * i) (unpack v)
          else l ++ (r :: g :: b :: a :: tail)) = (l ++ s) ++ tail := by
        rw [← hs, List.append_assoc]
        split
        · rw [← hl]
          exact store_append l (unpack v) [r, g, b, a] tail rfl
        · rfl
      have hl' : (l ++ s).length = 4 * (i + 1) := by
        rw [List.length_append]
        omega
      rw [hstore, ih (i + 1) _ (l ++ s) tail (by omega) (by omega) (by omega) hl' (by omega),
        List.append_assoc]

/-- Over a buffer that holds the pixels the loops end, and are `process`. -/
theorem processWalk_eq {fuel : Nat} {m : List Byte} {npix : Word} (rotate : Bool)
    (hfuel : npix.toNat < fuel) (hroom : 4 * npix.toNat ≤ m.length) (hsmall : m.length ≤ 2 ^ 32) :
    processWalk fuel m npix rotate = .done (process m npix.toNat rotate) := by
  obtain ⟨body, rest, rfl, hbody⟩ : ∃ body rest, m = body ++ rest ∧
      body.length = 64 * (npix.toNat / 16) := by
    refine ⟨m.take (64 * (npix.toNat / 16)), m.drop (64 * (npix.toNat / 16)),
      (List.take_append_drop _ m).symm, ?_⟩
    rw [List.length_take]
    omega
  have hblocks := blockWalk_eq rotate (npix.toNat / 16) 0 (fun _ => 0) [] (body ++ rest) rfl
    (show npix.toNat / 16 < fuel by omega) (by omega) rfl (by simpa using hroom)
    (by simpa using hsmall)
  rw [blockLoop_append rotate _ _ rest hbody, Nat.zero_add, List.nil_append, List.nil_append]
    at hblocks
  have hlength := length_blockLoop rotate (npix.toNat / 16) (fun _ => 0) hbody
  rw [List.length_append] at hroom
  unfold processWalk
  rw [show blockWalk rotate npix fuel 0 0 (fun _ => 0) (body ++ rest) = _ from hblocks]
  simp only [Walk.bind_done]
  rw [pixelWalk_eq rotate (npix.toNat % 16) _ _ _ rest (by omega) (by omega) (by omega) (by omega)
    (by omega)]
  unfold process
  simp only [List.take_left' hbody, List.drop_left' hbody]

theorem processWalk_rotate {fuel : Nat} {m : List Byte} {npix : Word}
    (hfuel : npix.toNat < fuel) (hroom : 4 * npix.toNat ≤ m.length) (hsmall : m.length ≤ 2 ^ 32) :
    processWalk fuel m npix true =
      .done (hashPixels npix.toNat (rotatePixels npix.toNat m), rotatePixels npix.toNat m) := by
  rw [processWalk_eq true hfuel hroom hsmall, process_rotate hroom]

theorem processWalk_read {fuel : Nat} {m : List Byte} {npix : Word}
    (hfuel : npix.toNat < fuel) (hroom : 4 * npix.toNat ≤ m.length) (hsmall : m.length ≤ 2 ^ 32) :
    processWalk fuel m npix false = .done (hashPixels npix.toNat m, m) := by
  rw [processWalk_eq false hfuel hroom hsmall]
  exact congrArg Walk.done (Prod.ext rfl (process_read m npix.toNat))

/-! ### What the rotation is -/

theorem rotatePixels_pixel {n i : Nat} {m : List Byte} (hi : i < n) (hm : 4 * n ≤ m.length) :
    (rotatePixels n m)[4 * i]? = m[4 * i + 1]? ∧ (rotatePixels n m)[4 * i + 1]? = m[4 * i + 2]? ∧
      (rotatePixels n m)[4 * i + 2]? = m[4 * i]? ∧
      (rotatePixels n m)[4 * i + 3]? = m[4 * i + 3]? := by
  induction n generalizing i m with
  | zero => omega
  | succ n ih =>
      obtain ⟨r, g, b, a, m', rfl, hm'⟩ := exists_pixel hm
      rw [rotatePixels]
      cases i with
      | zero => exact ⟨rfl, rfl, rfl, rfl⟩
      | succ i =>
          rw [show 4 * (i + 1) = 4 * i + 1 + 1 + 1 + 1 by omega]
          exact ih (by omega) hm'

theorem rotatePixels_past {n j : Nat} {m : List Byte} (hj : 4 * n ≤ j) :
    (rotatePixels n m)[j]? = m[j]? := by
  induction n, m using rotatePixels.induct generalizing j with
  | case1 n r g b a m ih =>
      obtain ⟨j, rfl⟩ : ∃ k, j = k + 1 + 1 + 1 + 1 := ⟨j - 4, by omega⟩
      exact ih (by omega)
  | case2 n m h => rw [rotatePixels.eq_2 _ _ h]

theorem rotatePixels_thrice (n : Nat) (m : List Byte) :
    rotatePixels n (rotatePixels n (rotatePixels n m)) = m := by
  induction n, m using rotatePixels.induct with
  | case1 n r g b a m ih => simp only [rotatePixels, ih]
  | case2 n m h => simp only [rotatePixels.eq_2 _ _ h]

/-- Over every buffer and pixel count: what a rotating pass leaves, that the hash it returns is the
one a reading pass finds there, and that the third rotation restores the buffer. -/
theorem processWalk_rotates {m : List Byte} {npix : Word} (hroom : 4 * npix.toNat ≤ m.length)
    (hsmall : m.length ≤ 2 ^ 32) :
    ∃ hash m', m'.length = m.length ∧
      (∀ i < npix.toNat, m'[4 * i]? = m[4 * i + 1]? ∧ m'[4 * i + 1]? = m[4 * i + 2]? ∧
        m'[4 * i + 2]? = m[4 * i]? ∧ m'[4 * i + 3]? = m[4 * i + 3]?) ∧
      (∀ j, 4 * npix.toNat ≤ j → m'[j]? = m[j]?) ∧
      ∃ hash₂ m₂ hash₃, ∀ fuel, npix.toNat < fuel →
        processWalk fuel m npix true = .done (hash, m') ∧
        processWalk fuel m' npix false = .done (hash, m') ∧
        processWalk fuel m' npix true = .done (hash₂, m₂) ∧
        processWalk fuel m₂ npix true = .done (hash₃, m) := by
  refine ⟨hashPixels npix.toNat (rotatePixels npix.toNat m), rotatePixels npix.toNat m,
    length_rotatePixels _ _, ?_, ?_, ?_⟩
  · intro i hi
    exact rotatePixels_pixel hi hroom
  · intro j hj
    exact rotatePixels_past hj
  · have hlength₁ := length_rotatePixels npix.toNat m
    have hlength₂ := length_rotatePixels npix.toNat (rotatePixels npix.toNat m)
    refine ⟨hashPixels npix.toNat (rotatePixels npix.toNat (rotatePixels npix.toNat m)),
      rotatePixels npix.toNat (rotatePixels npix.toNat m), hashPixels npix.toNat m, ?_⟩
    intro fuel hfuel
    refine ⟨?_, ?_, ?_, ?_⟩
    · exact processWalk_rotate hfuel hroom hsmall
    · exact processWalk_read hfuel (by omega) (by omega)
    · exact processWalk_rotate hfuel (by omega) (by omega)
    · rw [processWalk_rotate hfuel (by omega) (by omega), rotatePixels_thrice]

/-- Seventeen pixels and two bytes behind them: one block, one single pixel. -/
theorem processWalk_rotates_seventeen :
    4 * (17 : Word).toNat ≤ (List.replicate 70 (7 : Byte)).length ∧
      ∃ hash m', processWalk 18 (List.replicate 70 7) 17 true = .done (hash, m') := by
  have hroom : 4 * (17 : Word).toNat ≤ (List.replicate 70 (7 : Byte)).length := by decide
  obtain ⟨hash, m', -, -, -, hash₂, m₂, hash₃, hruns⟩ := processWalk_rotates hroom (by decide)
  exact ⟨hroom, hash, m', (hruns 18 (by decide)).1⟩

/-! ### More fuel -/

theorem blockWalk_mono {rotate : Bool} {npix : Word} {fuel fuel' : Nat} (hle : fuel ≤ fuel')
    {i : Word} {b : Nat} {acc : Lanes} {m : List Byte}
    (h : blockWalk rotate npix fuel i b acc m ≠ .running) :
    blockWalk rotate npix fuel' i b acc m = blockWalk rotate npix fuel i b acc m := by
  induction fuel generalizing fuel' i b acc m with
  | zero => exact absurd rfl h
  | succ fuel ih =>
      obtain ⟨fuel', rfl⟩ := Nat.exists_eq_add_of_le' hle
      rw [← Nat.add_assoc] at hle ⊢
      rw [blockWalk] at h
      rw [blockWalk, blockWalk]
      split
      · split
        · rename_i hblock hin
          rw [if_pos hblock, if_pos hin] at h
          exact ih (by omega) h
        · rfl
      · rfl

theorem pixelWalk_mono {rotate : Bool} {npix : Word} {fuel fuel' : Nat} (hle : fuel ≤ fuel')
    {i : Word} {b : Nat} {h : Word} {m : List Byte}
    (hstop : pixelWalk rotate npix fuel i b h m ≠ .running) :
    pixelWalk rotate npix fuel' i b h m = pixelWalk rotate npix fuel i b h m := by
  induction fuel generalizing fuel' i b h m with
  | zero => exact absurd rfl hstop
  | succ fuel ih =>
      obtain ⟨fuel', rfl⟩ := Nat.exists_eq_add_of_le' hle
      rw [← Nat.add_assoc] at hle ⊢
      rw [pixelWalk] at hstop
      rw [pixelWalk, pixelWalk]
      split
      · rename_i hlt
        rw [if_pos hlt] at hstop
        split
        · rename_i r g bl a tail hread
          rw [hread] at hstop
          exact ih (by omega) hstop
        · rfl
      · rfl

theorem processWalk_mono {fuel fuel' : Nat} (hle : fuel ≤ fuel') {m : List Byte} {npix : Word}
    {rotate : Bool} (h : processWalk fuel m npix rotate ≠ .running) :
    processWalk fuel' m npix rotate = processWalk fuel m npix rotate := by
  unfold processWalk at h ⊢
  have hblocks : blockWalk rotate npix fuel 0 0 (fun _ => 0) m ≠ .running := by
    intro hrunning
    rw [hrunning] at h
    exact h rfl
  rw [blockWalk_mono hle hblocks]
  cases hwalk : blockWalk rotate npix fuel 0 0 (fun _ => 0) m with
  | done r =>
      rw [hwalk] at h
      exact pixelWalk_mono hle h
  | fault => rfl
  | running => rfl

/-! ### A buffer that is too short -/

theorem blockWalk_short (rotate : Bool) {npix : Word} (fuel i : Nat) (acc : Lanes) {m : List Byte}
    (hfuel : m.length < 4 * i + 64 * fuel) (hsmall : m.length ≤ 2 ^ 32)
    (hshort : m.length < 4 * npix.toNat) (hi : 4 * i ≤ m.length) :
    blockWalk rotate npix fuel (BitVec.ofNat 32 i) (4 * i) acc m = .fault ∨
      ∃ i' acc' m', blockWalk rotate npix fuel (BitVec.ofNat 32 i) (4 * i) acc m =
        .done (BitVec.ofNat 32 i', 4 * i', acc', m') ∧ m'.length = m.length ∧
        4 * i' ≤ m.length := by
  induction fuel generalizing i acc m with
  | zero => omega
  | succ fuel ih =>
      have hnext : BitVec.ofNat 32 i + 16 = BitVec.ofNat 32 (i + 16) := counter_add i 16
      rw [blockWalk, hnext, show 4 * i + 64 = 4 * (i + 16) by omega]
      split
      · split
        · simp only
          generalize hs : (if rotate then storeRotated 16 ((m.drop (4 * i)).take 64)
            else (m.drop (4 * i)).take 64) = s
          have hslength : s.length = 64 := by
            rw [← hs]
            split
            · exact length_storeRotated 16 _
            · rw [List.length_take, List.length_drop]
              omega
          have hlength : (if rotate then store m (4 * i) s else m).length = m.length := by
            split
            · exact length_store (by omega)
            · rfl
          generalize (if rotate then store m (4 * i) s else m) = m₁ at hlength ⊢
          have hgo := ih (i + 16) (accumulate acc s) (m := m₁) (by omega) (by omega) (by omega)
            (by omega)
          rw [hlength] at hgo
          exact hgo
        · exact .inl rfl
      · exact .inr ⟨i, acc, m, rfl, rfl, hi⟩

theorem pixelWalk_short (rotate : Bool) {npix : Word} {fuel i : Nat} {h : Word} {m : List Byte}
    (hfuel : m.length < 4 * i + 4 * fuel) (hshort : m.length < 4 * npix.toNat)
    (hi : 4 * i ≤ m.length) :
    pixelWalk rotate npix fuel (BitVec.ofNat 32 i) (4 * i) h m = .fault := by
  have hnpix := npix.isLt
  induction fuel generalizing i h m with
  | zero => omega
  | succ fuel ih =>
      have hnext : BitVec.ofNat 32 i + 1 = BitVec.ofNat 32 (i + 1) := counter_add i 1
      have hlt : BitVec.ofNat 32 i < npix := by
        rw [counter_lt (by omega)]
        omega
      rw [pixelWalk, if_pos hlt, hnext, show 4 * i + 4 = 4 * (i + 1) by omega]
      split
      · rename_i r g b a tail hread
        have hread' := congrArg List.length hread
        rw [List.length_drop] at hread'
        simp only [List.length_cons] at hread'
        simp only
        generalize (if rotate then rotateWord (pack r g b a) else pack r g b a) = v
        have hlength : (if rotate then store m (4 * i) (unpack v) else m).length = m.length := by
          split
          · exact length_store (show 4 * i + 4 ≤ m.length by omega)
          · rfl
        exact ih (by omega) (by omega) (by omega)
      · rfl

/-- Over a shorter buffer either pass ends up outside it. -/
theorem processWalk_short {m : List Byte} {npix : Word} (rotate : Bool)
    (hshort : m.length < 4 * npix.toNat) (hsmall : m.length ≤ 2 ^ 32) {fuel : Nat}
    (hfuel : m.length < fuel) : processWalk fuel m npix rotate = .fault := by
  unfold processWalk
  have hblocks := blockWalk_short rotate fuel 0 (fun _ => 0) (by omega) hsmall hshort (by omega)
  obtain hfault | ⟨i, acc, m', hdone, hlength, hi⟩ := hblocks
  · rw [show blockWalk rotate npix fuel 0 0 (fun _ => 0) m = _ from hfault, Walk.bind_fault]
  · rw [show blockWalk rotate npix fuel 0 0 (fun _ => 0) m = _ from hdone]
    exact pixelWalk_short rotate (by omega) (by omega) (by omega)

/-- Over a buffer that holds the pixels a pass is `process`, or needs more fuel. -/
theorem processWalk_running_or {m : List Byte} {npix : Word} (rotate : Bool)
    (hroom : 4 * npix.toNat ≤ m.length) (hsmall : m.length ≤ 2 ^ 32) (fuel : Nat) :
    processWalk fuel m npix rotate = .running ∨
      processWalk fuel m npix rotate = .done (process m npix.toNat rotate) := by
  by_cases hstop : processWalk fuel m npix rotate = .running
  · exact .inl hstop
  · have hmono := processWalk_mono (Nat.le_add_right fuel (npix.toNat + 1)) hstop
    rw [processWalk_eq rotate (by omega) hroom hsmall] at hmono
    exact .inr hmono.symm

/-- A pass never leaves the memory it was given exactly when that holds the pixels. -/
theorem processWalk_inside_iff {m : List Byte} {npix : Word} (rotate : Bool)
    (hsmall : m.length ≤ 2 ^ 32) :
    (∀ fuel, processWalk fuel m npix rotate ≠ .fault) ↔ 4 * npix.toNat ≤ m.length := by
  constructor
  · intro hinside
    by_contra hshort
    exact hinside (m.length + 1) (processWalk_short rotate (by omega) hsmall (by omega))
  · intro hroom fuel hfault
    obtain hrunning | hdone := processWalk_running_or rotate hroom hsmall fuel
    · rw [hfault] at hrunning
      cases hrunning
    · rw [hfault] at hdone
      cases hdone

end LineageA1000.Shim
