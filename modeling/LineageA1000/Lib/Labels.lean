import Mathlib.Data.Finset.Card
import Mathlib.Data.Set.Pairwise.Basic
import Mathlib.Data.Set.Lattice
import Mathlib.Logic.Relation
import Mathlib.Order.CompletePartialOrder

/-!
# Merging labels

The elements of a list carry labels, all different at first. While two related elements have
different labels, everything labelled as the one gets the label of the other. Elements with the same
label are always joined by a chain of related elements, related elements have the same label in the
end, and every merge on the way has cost one label.

The elements stand for sets: `disjoint_block` says that the unions of the classes are disjoint sets,
and `block_subset` that each is within one set of every family of disjoint sets into which the
elements fit.
-/

namespace LineageA1000.Labels

variable {α L : Type*}

/-- A chain of related elements of the list joins the two. -/
def Linked (r : α → α → Prop) (l : List α) : α → α → Prop :=
  Relation.EqvGen fun a b => a ∈ l ∧ b ∈ l ∧ r a b

/-- Only joined elements have the same label. -/
def Sound (r : α → α → Prop) (l : List α) (f : α → L) : Prop :=
  ∀ a ∈ l, ∀ b ∈ l, f a = f b → Linked r l a b

/-- Related elements have the same label. -/
def Settled (r : α → α → Prop) (l : List α) (f : α → L) : Prop :=
  ∀ a ∈ l, ∀ b ∈ l, r a b → f a = f b

variable {r : α → α → Prop} {l : List α} {f : α → L} {a b : α}

theorem sound_of_injOn (h : ∀ a ∈ l, ∀ b ∈ l, f a = f b → a = b) : Sound r l f := by
  intro a ha b hb hab
  rw [h a ha b hb hab]
  exact .refl b

/-! ### One merge -/

section Relabel

variable [DecidableEq L]

/-- The labels in use. -/
def labels (l : List α) (f : α → L) : Finset L := (l.map f).toFinset

theorem mem_labels {x : L} : x ∈ labels l f ↔ ∃ c ∈ l, f c = x := by
  simp [labels]

theorem card_labels_pos (ha : a ∈ l) : 0 < (labels l f).card :=
  Finset.card_pos.2 ⟨f a, mem_labels.2 ⟨a, ha, rfl⟩⟩

theorem card_labels_of_injOn (hl : l.Nodup) (h : ∀ a ∈ l, ∀ b ∈ l, f a = f b → a = b) :
    (labels l f).card = l.length := by
  rw [labels, List.toFinset_card_of_nodup, List.length_map]
  exact hl.map_on fun a ha b hb hab => h a ha b hb hab

variable [DecidableEq α]

/-- Everything in the list that is labelled `y` gets the label `x`. -/
def relabel (l : List α) (x y : L) (f : α → L) (c : α) : L := if c ∈ l ∧ f c = y then x else f c

theorem relabel_of_mem {x y : L} {c : α} (hc : c ∈ l) :
    relabel l x y f c = if f c = y then x else f c := by
  simp [relabel, hc]

/-- Merging the labels of two related elements keeps the labels sound. -/
theorem Sound.relabel (h : Sound r l f) (ha : a ∈ l) (hb : b ∈ l) (hab : r a b) :
    Sound r l (relabel l (f a) (f b) f) := by
  have hlink : Linked r l a b := .rel a b ⟨ha, hb, hab⟩
  -- Whatever has the merged label was labelled as one of the two, and so is joined to `a`.
  have hjoined : ∀ c ∈ l, f c = f a ∨ f c = f b → Linked r l a c := by
    rintro c hc (hca | hcb)
    · exact h a ha c hc hca.symm
    · exact hlink.trans _ _ _ (h b hb c hc hcb.symm)
  intro c hc d hd hcd
  rw [relabel_of_mem hc, relabel_of_mem hd] at hcd
  by_cases hcb : f c = f b
  · rw [if_pos hcb] at hcd
    have hda : f d = f a ∨ f d = f b := by
      by_cases hdb : f d = f b
      · exact .inr hdb
      · rw [if_neg hdb] at hcd
        exact .inl hcd.symm
    exact .trans _ _ _ (.symm _ _ (hjoined c hc (.inr hcb))) (hjoined d hd hda)
  · rw [if_neg hcb] at hcd
    by_cases hdb : f d = f b
    · rw [if_pos hdb] at hcd
      exact .trans _ _ _ (.symm _ _ (hjoined c hc (.inl hcd))) (hjoined d hd (.inr hdb))
    · rw [if_neg hdb] at hcd
      exact h c hc d hd hcd

theorem labels_relabel (ha : a ∈ l) (hab : f a ≠ f b) :
    labels l (relabel l (f a) (f b) f) = (labels l f).erase (f b) := by
  ext x
  rw [mem_labels, Finset.mem_erase, mem_labels]
  constructor
  · rintro ⟨c, hc, rfl⟩
    rw [relabel_of_mem hc]
    by_cases hcb : f c = f b
    · rw [if_pos hcb]
      exact ⟨hab, a, ha, rfl⟩
    · rw [if_neg hcb]
      exact ⟨hcb, c, hc, rfl⟩
  · rintro ⟨hx, c, hc, rfl⟩
    refine ⟨c, hc, ?_⟩
    rw [relabel_of_mem hc, if_neg hx]

/-- A merge costs one label. -/
theorem card_labels_relabel (ha : a ∈ l) (hb : b ∈ l) (hab : f a ≠ f b) :
    (labels l (relabel l (f a) (f b) f)).card + 1 = (labels l f).card := by
  rw [labels_relabel ha hab]
  exact Finset.card_erase_add_one (mem_labels.2 ⟨b, hb, rfl⟩)

end Relabel

/-! ### The classes as sets -/

section Blocks

variable {β : Type*} (set : α → Set β)

/-- The union of a class. -/
def block (l : List α) (f : α → L) (x : L) : Set β := {p | ∃ c ∈ l, f c = x ∧ p ∈ set c}

/-- The two sets have an element in common. -/
def Overlap (a b : α) : Prop := (set a ∩ set b).Nonempty

variable {set}

theorem subset_block (ha : a ∈ l) : set a ⊆ block set l f (f a) := fun _ hp => ⟨a, ha, rfl, hp⟩

/-- Classes of settled labels do not meet. -/
theorem disjoint_block (h : Settled (Overlap set) l f) {x y : L} (hxy : x ≠ y) :
    Disjoint (block set l f x) (block set l f y) := by
  refine Set.disjoint_left.2 ?_
  rintro p ⟨c, hc, rfl, hpc⟩ ⟨d, hd, rfl, hpd⟩
  exact hxy (h c hc d hd ⟨p, hpc, hpd⟩)

/-- A family of disjoint sets tells joined elements not apart. -/
theorem subset_iff_of_linked {family : Set (Set β)} (hdisjoint : family.PairwiseDisjoint id)
    (hfits : ∀ c ∈ l, ∃ S ∈ family, set c ⊆ S) (hab : Linked (Overlap set) l a b) {S : Set β}
    (hS : S ∈ family) : set a ⊆ S ↔ set b ⊆ S := by
  have hstep : ∀ c d, c ∈ l → d ∈ l → Overlap set c d → set c ⊆ S → set d ⊆ S := by
    rintro c d - hd ⟨p, hpc, hpd⟩ hc
    obtain ⟨T, hT, hdT⟩ := hfits d hd
    have hST : S = T := hdisjoint.elim_set hS hT p (hc hpc) (hdT hpd)
    rwa [hST]
  induction hab with
  | rel a b hab =>
      obtain ⟨ha, hb, hover⟩ := hab
      refine ⟨hstep a b ha hb hover, hstep b a hb ha ?_⟩
      rwa [Overlap, Set.inter_comm]
  | refl a => rfl
  | symm a b _ ih => exact ih.symm
  | trans a b c _ _ ihab ihbc => exact ihab.trans ihbc

/-- The classes of sound labels are as small as they can be: each fits into one set of any family of
disjoint sets into which the elements fit. -/
theorem block_subset (h : Sound (Overlap set) l f) {family : Set (Set β)}
    (hdisjoint : family.PairwiseDisjoint id) (hfits : ∀ c ∈ l, ∃ S ∈ family, set c ⊆ S)
    (ha : a ∈ l) : ∃ S ∈ family, block set l f (f a) ⊆ S := by
  obtain ⟨S, hS, haS⟩ := hfits a ha
  refine ⟨S, hS, ?_⟩
  rintro p ⟨c, hc, hca, hp⟩
  exact (subset_iff_of_linked hdisjoint hfits (h a ha c hc hca.symm) hS).1 haS hp

end Blocks

end LineageA1000.Labels
