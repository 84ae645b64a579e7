import Mathlib.Data.Set.Basic
import Mathlib.Data.BitVec

/-!
# Bit masks as sets

A mask of `n` words of `w` bits is read as the set of its raised positions. The word-wise bit
operations are the set operations, and the mask test `a & ~b = 0` is inclusion. Everything said
about masks elsewhere goes through these names.
-/

namespace LineageA1000

/-- `n` words of `w` bits. -/
abbrev Mask (n w : Nat) := Fin n → BitVec w

namespace Mask

variable {n w : Nat}

/-- The raised positions of a mask. -/
def bits (a : Mask n w) : Set (Fin n × Fin w) := {p | (a p.1).getLsbD p.2 = true}

theorem mem_bits {a : Mask n w} {p : Fin n × Fin w} :
    p ∈ bits a ↔ (a p.1).getLsbD p.2 = true := Iff.rfl

instance (a : Mask n w) : DecidablePred (· ∈ bits a) :=
  fun p => inferInstanceAs (Decidable ((a p.1).getLsbD p.2 = true))

theorem bits_injective : Function.Injective (bits (n := n) (w := w)) := by
  intro a b hab
  funext i
  apply BitVec.eq_of_getLsbD_eq
  intro j hj
  have hp : (i, (⟨j, hj⟩ : Fin w)) ∈ bits a ↔ (i, (⟨j, hj⟩ : Fin w)) ∈ bits b := by rw [hab]
  simp only [mem_bits] at hp
  exact Bool.eq_iff_iff.mpr hp

@[simp] theorem bits_zero : bits (fun _ => 0#w : Mask n w) = ∅ := by
  ext p
  simp [mem_bits]

@[simp] theorem bits_or (a b : Mask n w) :
    bits (fun i => a i ||| b i) = bits a ∪ bits b := by
  ext p
  simp [mem_bits]

@[simp] theorem bits_and (a b : Mask n w) :
    bits (fun i => a i &&& b i) = bits a ∩ bits b := by
  ext p
  simp [mem_bits]

@[simp] theorem bits_and_not (a b : Mask n w) :
    bits (fun i => a i &&& ~~~ b i) = bits a \ bits b := by
  ext p
  simp [mem_bits]

theorem bits_eq_empty_iff (a : Mask n w) : bits a = ∅ ↔ ∀ i, a i = 0#w := by
  rw [← bits_zero, bits_injective.eq_iff, funext_iff]

end Mask

end LineageA1000
