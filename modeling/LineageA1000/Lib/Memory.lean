import Mathlib.Algebra.GroupWithZero.Nat
import Mathlib.Algebra.Ring.Nat
import Mathlib.Data.List.Basic

/-!
# A 32-bit memory

Bytes at 32-bit addresses, little-endian words, stores and copies, and ranges of addresses that wrap
as the machine's do. `Within` says that a range lies in a block that does not wrap. Stores and
copies leave what they do not cover as it was, which is all that `word_congr` needs to carry a word
along.
-/

namespace LineageA1000

abbrev Addr := BitVec 32

abbrev Memory := Addr → UInt8

namespace Memory

/-! ### Words -/

/-- The little-endian word of four bytes. -/
def le32 (byte : Nat → UInt8) : BitVec 32 :=
  (byte 3).toBitVec ++ (byte 2).toBitVec ++ (byte 1).toBitVec ++ (byte 0).toBitVec

def le16 (byte : Nat → UInt8) : BitVec 16 := (byte 1).toBitVec ++ (byte 0).toBitVec

def bytes (m : Memory) (a : Addr) : Nat → UInt8 := fun k => m (a + BitVec.ofNat 32 k)

def word (m : Memory) (a : Addr) : BitVec 32 := le32 (m.bytes a)

def half (m : Memory) (a : Addr) : BitVec 16 := le16 (m.bytes a)

/-- A string of C, without its terminator. -/
def cstring (m : Memory) (a : Addr) : List UInt8 := go (2 ^ 32) a
where
  go : Nat → Addr → List UInt8
    | 0, _ => []
    | n + 1, a => if m a = 0 then [] else m a :: go n (a + 1)

/-! ### Ranges -/

/-- `x` is one of the `n` addresses from `a` on. -/
def Covers (a : Addr) (n : Nat) (x : Addr) : Prop := (x - a).toNat < n

instance (a : Addr) (n : Nat) (x : Addr) : Decidable (Covers a n x) := Nat.decLt _ _

/-- The `n` addresses from `a` on lie in the block of `span` bytes at `base`. -/
def Within (base span a : Addr) (n : Nat) : Prop :=
  ∀ k < n, base.toNat ≤ (a + BitVec.ofNat 32 k).toNat ∧
    (a + BitVec.ofNat 32 k).toNat < base.toNat + span.toNat

instance (base span a : Addr) (n : Nat) : Decidable (Within base span a n) :=
  Nat.decidableBallLT n _

/-- A range given by its distance from the base of a block. -/
theorem within_of_offset {base span d : Addr} {n : Nat} (hblock : base.toNat + span.toNat ≤ 2 ^ 32)
    (hd : d.toNat + n ≤ span.toNat) : Within base span (base + d) n := by
  intro k hk
  have hbase : base.toNat < 2 ^ 32 := base.isLt
  have hk' : (BitVec.ofNat 32 k).toNat = k := by
    rw [BitVec.toNat_ofNat, Nat.mod_eq_of_lt]
    omega
  have haddr : (base + d + BitVec.ofNat 32 k).toNat = base.toNat + d.toNat + k := by
    rw [BitVec.toNat_add, BitVec.toNat_add, hk']
    omega
  omega

/-! ### Stores and copies -/

/-- `n` bytes are written at `a`. -/
def copyTo (m : Memory) (a : Addr) (n : Nat) (byte : Nat → UInt8) : Memory :=
  fun x => if (x - a).toNat < n then byte (x - a).toNat else m x

def storeWord (m : Memory) (a : Addr) (w : BitVec 32) : Memory :=
  m.copyTo a 4 fun k => UInt8.ofBitVec (w.extractLsb' (8 * k) 8)

theorem copyTo_of_not_covers {m : Memory} {a x : Addr} {n : Nat} {byte : Nat → UInt8}
    (hx : ¬ Covers a n x) : m.copyTo a n byte x = m x := if_neg hx

theorem storeWord_of_not_covers {m : Memory} {a x : Addr} {w : BitVec 32} (hx : ¬ Covers a 4 x) :
    m.storeWord a w x = m x := copyTo_of_not_covers hx

theorem le32_congr {byte byte' : Nat → UInt8} (h : ∀ k < 4, byte k = byte' k) :
    le32 byte = le32 byte' := by
  unfold le32
  rw [h 0 (by decide), h 1 (by decide), h 2 (by decide), h 3 (by decide)]

theorem word_congr {m m' : Memory} {a : Addr}
    (h : ∀ k < 4, m (a + BitVec.ofNat 32 k) = m' (a + BitVec.ofNat 32 k)) :
    m.word a = m'.word a := le32_congr h

theorem half_congr {m m' : Memory} {a : Addr}
    (h : ∀ k < 2, m (a + BitVec.ofNat 32 k) = m' (a + BitVec.ofNat 32 k)) :
    m.half a = m'.half a := by
  unfold half le16 bytes
  rw [h 0 (by decide), h 1 (by decide)]

/-! ### What is read back -/

theorem storeWord_at {m : Memory} {a : Addr} {w : BitVec 32} {k : Nat} (hk : k < 4) :
    m.storeWord a w (a + BitVec.ofNat 32 k) = UInt8.ofBitVec (w.extractLsb' (8 * k) 8) := by
  have hoffset : (a + BitVec.ofNat 32 k - a).toNat = k := by
    rw [BitVec.add_comm, BitVec.add_sub_cancel, BitVec.toNat_ofNat, Nat.mod_eq_of_lt]
    omega
  unfold storeWord copyTo
  rw [hoffset, if_pos hk]

theorem word_storeWord (m : Memory) (a : Addr) (w : BitVec 32) : (m.storeWord a w).word a = w := by
  have hbyte : ∀ {k : Nat}, k < 4 →
      (m.storeWord a w (a + BitVec.ofNat 32 k)).toBitVec = w.extractLsb' (8 * k) 8 := by
    intro k hk
    rw [storeWord_at hk]
  unfold word le32 bytes
  rw [hbyte (by decide), hbyte (by decide), hbyte (by decide), hbyte (by decide)]
  have hupper : w.extractLsb' 24 8 ++ w.extractLsb' 16 8 = w.extractLsb' 16 16 :=
    BitVec.extractLsb'_append_extractLsb'_eq_extractLsb' rfl
  have hmiddle : w.extractLsb' 16 16 ++ w.extractLsb' 8 8 = w.extractLsb' 8 24 :=
    BitVec.extractLsb'_append_extractLsb'_eq_extractLsb' rfl
  have hlower : w.extractLsb' 8 24 ++ w.extractLsb' 0 8 = w.extractLsb' 0 32 :=
    BitVec.extractLsb'_append_extractLsb'_eq_extractLsb' rfl
  show w.extractLsb' 24 8 ++ w.extractLsb' 16 8 ++ w.extractLsb' 8 8 ++ w.extractLsb' 0 8 = w
  rw [hupper, hmiddle, hlower]
  exact BitVec.extractLsb'_eq_self

/-- A string is the same where its bytes and its terminator are. -/
theorem cstring_congr {m m' : Memory} {a : Addr}
    (h : ∀ k ≤ (m.cstring a).length, m' (a + BitVec.ofNat 32 k) = m (a + BitVec.ofNat 32 k)) :
    m'.cstring a = m.cstring a := by
  have hgo : ∀ n a, (∀ k ≤ (cstring.go m n a).length,
      m' (a + BitVec.ofNat 32 k) = m (a + BitVec.ofNat 32 k)) →
        cstring.go m' n a = cstring.go m n a := by
    intro n
    induction n with
    | zero => exact fun a _ => rfl
    | succ n ih =>
        intro a h
        have hfirst : m' a = m a := by
          have hzero := h 0 (Nat.zero_le _)
          rwa [show a + BitVec.ofNat 32 0 = a from BitVec.add_zero a] at hzero
        have hnext : ∀ k, a + 1 + BitVec.ofNat 32 k = a + BitVec.ofNat 32 (k + 1) := by
          intro k
          rw [Nat.add_comm k 1, BitVec.ofNat_add, BitVec.add_assoc]
          rfl
        unfold cstring.go at h ⊢
        rw [hfirst]
        split
        · rfl
        · rename_i hbyte
          rw [if_neg hbyte] at h
          rw [ih (a + 1) fun k hk => ?_]
          rw [hnext]
          exact h (k + 1) (Nat.succ_le_succ hk)
  exact hgo _ a h
end Memory

end LineageA1000
