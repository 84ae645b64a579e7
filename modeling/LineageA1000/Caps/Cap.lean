import LineageA1000.Lib.BitSet

/-!
# Capability sets

`kernel_cap_t` and its operations, word by word as the kernel computes them, and what each of them
is on the set of raised capabilities. Later proofs read capability sets only through `toSet`.
-/

namespace LineageA1000.Caps

open Mask

/-- `CAP_LAST_CAP` of the 3.10 kernel, `CAP_BLOCK_SUSPEND`. -/
def capLastCap : Nat := 36

def CAP_SETUID : Fin 64 := 7
def CAP_SETPCAP : Fin 64 := 8
def CAP_NET_ADMIN : Fin 64 := 12
def CAP_NET_RAW : Fin 64 := 13

scoped instance instNeZeroWords : NeZero 2 := ⟨by decide⟩

/-- `kernel_cap_t`: two words of 32 capabilities. -/
structure KernelCap where
  cap : Mask 2 32
  deriving DecidableEq

namespace KernelCap

/-- The raised capabilities, as positions `(word, bit)`. -/
def toSet (c : KernelCap) : Set (Fin 2 × Fin 32) := bits c.cap

theorem toSet_injective : Function.Injective toSet := by
  intro ⟨a⟩ ⟨b⟩ hab
  exact congrArg KernelCap.mk (bits_injective hab)

/-- `CAP_TO_INDEX` and `CAP_TO_MASK` as a position. -/
def position (flag : Fin 64) : Fin 2 × Fin 32 :=
  (⟨flag.val / 32, by omega⟩, ⟨flag.val % 32, by omega⟩)

end KernelCap

open KernelCap

def capValid (x : Nat) : Bool := x ≤ capLastCap

def capClear : KernelCap := ⟨fun _ => 0⟩

def capCombine (a b : KernelCap) : KernelCap := ⟨fun i => a.cap i ||| b.cap i⟩

def capIntersect (a b : KernelCap) : KernelCap := ⟨fun i => a.cap i &&& b.cap i⟩

def capDrop (a drop : KernelCap) : KernelCap := ⟨fun i => a.cap i &&& ~~~ drop.cap i⟩

def capIsclear (a : KernelCap) : Bool := decide (∀ i, a.cap i = 0)

def capIssubset (a set : KernelCap) : Bool := capIsclear (capDrop a set)

/-- The set with the one capability `flag`. -/
def capMask (flag : Fin 64) : KernelCap :=
  ⟨fun i => if i = (position flag).1 then 1#32 <<< (position flag).2.val else 0⟩

def capRaised (c : KernelCap) (flag : Fin 64) : Bool :=
  (c.cap (position flag).1).getLsbD (position flag).2

def capRaise (c : KernelCap) (flag : Fin 64) : KernelCap := capCombine c (capMask flag)

def capLower (c : KernelCap) (flag : Fin 64) : KernelCap := capDrop c (capMask flag)

@[simp] theorem toSet_capClear : capClear.toSet = ∅ := bits_zero

@[simp] theorem toSet_capCombine (a b : KernelCap) :
    (capCombine a b).toSet = a.toSet ∪ b.toSet := bits_or _ _

@[simp] theorem toSet_capIntersect (a b : KernelCap) :
    (capIntersect a b).toSet = a.toSet ∩ b.toSet := bits_and _ _

@[simp] theorem toSet_capDrop (a b : KernelCap) :
    (capDrop a b).toSet = a.toSet \ b.toSet := bits_and_not _ _

theorem capIsclear_iff (a : KernelCap) : capIsclear a = true ↔ a.toSet = ∅ := by
  rw [capIsclear, decide_eq_true_iff]
  exact (bits_eq_empty_iff a.cap).symm

theorem capIssubset_iff (a b : KernelCap) : capIssubset a b = true ↔ a.toSet ⊆ b.toSet := by
  rw [capIssubset, capIsclear_iff, toSet_capDrop, Set.sdiff_eq_empty]

theorem capRaised_iff (c : KernelCap) (flag : Fin 64) :
    capRaised c flag = true ↔ position flag ∈ c.toSet := Iff.rfl

@[simp] theorem toSet_capMask (flag : Fin 64) : (capMask flag).toSet = {position flag} := by
  ext ⟨i, j⟩
  change
    ((if i = (position flag).1 then 1#32 <<< (position flag).2.val else 0).getLsbD j = true) ↔ _
  rw [Set.mem_singleton_iff, Prod.ext_iff]
  by_cases hi : i = (position flag).1
  · rw [if_pos hi]
    simp only [BitVec.getLsbD_shiftLeft, BitVec.getLsbD_one, Bool.and_eq_true,
      decide_eq_true_iff, Bool.not_eq_true', decide_eq_false_iff_not, hi, true_and, Fin.ext_iff]
    omega
  · simp [hi]

@[simp] theorem toSet_capRaise (c : KernelCap) (flag : Fin 64) :
    (capRaise c flag).toSet = c.toSet ∪ {position flag} := by
  rw [capRaise, toSet_capCombine, toSet_capMask]

@[simp] theorem toSet_capLower (c : KernelCap) (flag : Fin 64) :
    (capLower c flag).toSet = c.toSet \ {position flag} := by
  rw [capLower, toSet_capDrop, toSet_capMask]

end LineageA1000.Caps
