import Mathlib.Logic.Function.Basic

/-!
# What a heap operation keeps

A heap maps pointers to cells. Most operations on one write a part of a few cells, and some free
others. What they keep is said by a projection of the cells: two heaps agree on it, or the second is
a part of the first as far as it goes.
-/

namespace LineageA1000.Heap

variable {Ptr Cell β γ : Type*}

/-- The same pointers are live, and the projection is the same of their cells. -/
def Agree (f : Cell → β) (heap heap' : Ptr → Option Cell) : Prop :=
  ∀ a, (heap' a).map f = (heap a).map f

/-- Some cells may be gone; the projection of the others is as it was. -/
def Thins (f : Cell → β) (heap heap' : Ptr → Option Cell) : Prop :=
  ∀ a cell', heap' a = some cell' → ∃ cell, heap a = some cell ∧ f cell' = f cell

variable {f : Cell → β} {heap heap' heap'' : Ptr → Option Cell} {a : Ptr} {cell cell' : Cell}

namespace Agree

theorem refl (f : Cell → β) (heap : Ptr → Option Cell) : Agree f heap heap := fun _ => rfl

theorem symm (h : Agree f heap heap') : Agree f heap' heap := fun a => (h a).symm

theorem trans (h : Agree f heap heap') (h' : Agree f heap' heap'') : Agree f heap heap'' :=
  fun a => (h' a).trans (h a)

theorem back (h : Agree f heap heap') (ha : heap' a = some cell') :
    ∃ cell, heap a = some cell ∧ f cell = f cell' := by
  apply Option.map_eq_some_iff.1
  rw [← h a, ha, Option.map_some]

/-- What a coarser projection shows is the same as well. -/
theorem comp (h : Agree f heap heap') (k : β → γ) : Agree (k ∘ f) heap heap' := by
  intro a
  rw [← Option.map_map, ← Option.map_map, h a]

theorem update [DecidableEq Ptr] (ha : heap a = some cell) (hf : f cell' = f cell) :
    Agree f heap (Function.update heap a (some cell')) := by
  intro b
  by_cases hb : b = a
  · subst hb
    rw [Function.update_self, ha, Option.map_some, Option.map_some, hf]
  · rw [Function.update_of_ne hb]

/-- The same pointer is written in both. -/
theorem update_both [DecidableEq Ptr] (h : Agree f heap heap') (hf : f cell' = f cell) :
    Agree f (Function.update heap a (some cell)) (Function.update heap' a (some cell')) := by
  intro b
  by_cases hb : b = a
  · subst hb
    rw [Function.update_self, Function.update_self, Option.map_some, Option.map_some, hf]
  · rw [Function.update_of_ne hb, Function.update_of_ne hb, h b]

theorem thins (h : Agree f heap heap') : Thins f heap heap' := by
  intro a cell' ha
  obtain ⟨cell, hcell, hf⟩ := h.back ha
  exact ⟨cell, hcell, hf.symm⟩

end Agree

namespace Thins

theorem refl (f : Cell → β) (heap : Ptr → Option Cell) : Thins f heap heap :=
  fun _ cell' ha => ⟨cell', ha, rfl⟩

theorem trans (h : Thins f heap heap') (h' : Thins f heap' heap'') : Thins f heap heap'' := by
  intro a cell'' ha''
  obtain ⟨cell', ha', hf'⟩ := h' a cell'' ha''
  obtain ⟨cell, ha, hf⟩ := h a cell' ha'
  exact ⟨cell, ha, hf'.trans hf⟩

theorem comp (h : Thins f heap heap') (k : β → γ) : Thins (k ∘ f) heap heap' := by
  intro a cell' ha'
  obtain ⟨cell, ha, hf⟩ := h a cell' ha'
  exact ⟨cell, ha, congrArg k hf⟩

/-- The cell that is left is the one that was there. -/
theorem eq (h : Thins f heap heap') (ha : heap a = some cell) (ha' : heap' a = some cell') :
    f cell' = f cell := by
  obtain ⟨old, hold, hf⟩ := h a cell' ha'
  rw [hf, Option.some.inj (hold.symm.trans ha)]

variable [DecidableEq Ptr]

/-- What is left of a cell that was written before. -/
theorem eq_update (h : Thins f (Function.update heap a (some cell)) heap')
    (ha' : heap' a = some cell') : f cell' = f cell :=
  h.eq (Function.update_self ..) ha'

/-- What is left of the cells beside one that was written before. -/
theorem of_update (h : Thins f (Function.update heap a (some cell)) heap') {b : Ptr} (hb : b ≠ a)
    {other' : Cell} (hother : heap' b = some other') :
    ∃ other, heap b = some other ∧ f other' = f other := by
  obtain ⟨other, hb', hf⟩ := h b other' hother
  rw [Function.update_of_ne hb] at hb'
  exact ⟨other, hb', hf⟩

/-- The same pointer is written in both. -/
theorem update_both (h : Thins f heap heap') (hf : f cell' = f cell) :
    Thins f (Function.update heap a (some cell)) (Function.update heap' a (some cell')) := by
  intro b other' hother
  by_cases hb : b = a
  · subst hb
    rw [Function.update_self] at hother
    rw [← Option.some.inj hother]
    exact ⟨cell, Function.update_self .., hf⟩
  · rw [Function.update_of_ne hb] at hother ⊢
    exact h b other' hother

/-- A cell that was written before is freed. -/
theorem free (h : Thins f (Function.update heap a (some cell)) heap') :
    Thins f heap (Function.update heap' a none) := by
  intro b other' hother
  have hb : b ≠ a := by
    rintro rfl
    rw [Function.update_self] at hother
    cases hother
  rw [Function.update_of_ne hb] at hother
  exact h.of_update hb hother

end Thins

end LineageA1000.Heap
