import Mathlib.Algebra.BigOperators.Group.Finset.Basic
import Mathlib.Algebra.Order.BigOperators.Group.Finset

/-!
# Reference counts

Objects with a counter each. An object starts with a count of one, `get` counts one reference more
and `put` one fewer, and the last `put` ends the object. A table is counted by `tok` when the count
of each live object is the number of references `tok` tells of, and the live objects are those with
a reference. Each rule asks only by how much `tok` changes, so whoever holds the references can be
left to the user: threads, other objects, or a ledger of references given away.
-/

namespace LineageA1000.RefCount

variable {α : Type*} [DecidableEq α]

/-- One reference on `a`. -/
def single (a x : α) : Nat := if x = a then 1 else 0

@[simp] theorem single_self (a : α) : single a a = 1 := if_pos rfl

theorem single_of_ne {a x : α} (h : x ≠ a) : single a x = 0 := if_neg h

structure Table (α : Type*) where
  live : Finset α
  ref : α → Nat

namespace Table

def init (T : Table α) (a : α) : Table α :=
  { live := insert a T.live, ref := Function.update T.ref a 1 }

def get (T : Table α) (a : α) : Table α :=
  { T with ref := Function.update T.ref a (T.ref a + 1) }

def put (T : Table α) (a : α) : Table α :=
  { live := if T.ref a = 1 then T.live.erase a else T.live
    ref := Function.update T.ref a (T.ref a - 1) }

/-- The object ends, whatever its count. -/
def drop (T : Table α) (a : α) : Table α := { T with live := T.live.erase a }

/-- The references on an object, none on one that is gone. -/
def count (T : Table α) (a : α) : Nat := if a ∈ T.live then T.ref a else 0

@[simp] theorem live_get (T : Table α) (a : α) : (T.get a).live = T.live := rfl

@[simp] theorem live_init (T : Table α) (a : α) : (T.init a).live = insert a T.live := rfl

@[simp] theorem live_drop (T : Table α) (a : α) : (T.drop a).live = T.live.erase a := rfl

theorem mem_put {T : Table α} {a x : α} :
    x ∈ (T.put a).live ↔ x ∈ T.live ∧ ¬ (x = a ∧ T.ref a = 1) := by
  rw [put]
  by_cases hone : T.ref a = 1
  · simp only [hone, if_true, Finset.mem_erase, and_true]
    exact and_comm
  · simp [hone]

theorem ref_put_of_ne (T : Table α) {a x : α} (h : x ≠ a) : (T.put a).ref x = T.ref x :=
  Function.update_of_ne h ..

theorem ref_get_of_ne (T : Table α) {a x : α} (h : x ≠ a) : (T.get a).ref x = T.ref x :=
  Function.update_of_ne h ..

end Table

/-- The table counts the references `tok` tells of. -/
def Counted (T : Table α) (tok : α → Nat) : Prop :=
  ∀ a, (a ∈ T.live → T.ref a = tok a) ∧ (a ∈ T.live ↔ tok a ≠ 0)

section Rules

variable {T : Table α} {tok tok' : α → Nat} {a : α}

omit [DecidableEq α] in
theorem Counted.ref (h : Counted T tok) (ha : a ∈ T.live) : T.ref a = tok a := (h a).1 ha

omit [DecidableEq α] in
theorem Counted.mem_iff (h : Counted T tok) : a ∈ T.live ↔ tok a ≠ 0 := (h a).2

omit [DecidableEq α] in
theorem Counted.mem (h : Counted T tok) (ha : tok a ≠ 0) : a ∈ T.live := (h a).2.2 ha

theorem Counted.count (h : Counted T tok) (a : α) : T.count a = tok a := by
  rw [Table.count]
  split
  case isTrue ha => exact h.ref ha
  case isFalse ha =>
      have hzero : ¬ tok a ≠ 0 := fun hne => ha (h.mem hne)
      omega

omit [DecidableEq α] in
theorem Counted.congr (h : Counted T tok) (htok : ∀ x, tok' x = tok x) : Counted T tok' := by
  intro x
  rw [htok x]
  exact h x

theorem Counted.init (h : Counted T tok) (ha : a ∉ T.live)
    (htok : ∀ x, tok' x = tok x + single a x) : Counted (T.init a) tok' := by
  intro x
  rw [htok x, Table.live_init, Finset.mem_insert]
  by_cases hx : x = a
  · subst hx
    have hzero : ¬ tok x ≠ 0 := fun hne => ha (h.mem hne)
    have hone : (T.init x).ref x = 1 := Function.update_self ..
    rw [single_self, hone]
    exact ⟨fun _ => by omega, by simp⟩
  · have hsame : (T.init a).ref x = T.ref x := Function.update_of_ne hx ..
    rw [single_of_ne hx, hsame]
    simp only [hx, false_or]
    exact h x

theorem Counted.get (h : Counted T tok) (ha : a ∈ T.live)
    (htok : ∀ x, tok' x = tok x + single a x) : Counted (T.get a) tok' := by
  intro x
  rw [htok x, Table.live_get]
  by_cases hx : x = a
  · subst hx
    have hone : (T.get x).ref x = T.ref x + 1 := Function.update_self ..
    rw [single_self, hone, h.ref ha]
    exact ⟨fun _ => rfl, by simp [ha]⟩
  · rw [single_of_ne hx, T.ref_get_of_ne hx]
    exact h x

theorem Counted.put (h : Counted T tok) (htok : ∀ x, tok' x + single a x = tok x) :
    Counted (T.put a) tok' := by
  intro x
  have hx := htok x
  rw [Table.mem_put]
  by_cases hxa : x = a
  · subst hxa
    rw [single_self] at hx
    have hlive : x ∈ T.live := h.mem (by omega)
    have href : T.ref x = tok x := h.ref hlive
    have hless : (T.put x).ref x = T.ref x - 1 := Function.update_self ..
    rw [hless, href]
    refine ⟨fun _ => by omega, ?_⟩
    simp only [hlive, true_and]
    omega
  · rw [single_of_ne hxa] at hx
    rw [T.ref_put_of_ne hxa, show tok' x = tok x by omega]
    simp only [hxa, false_and, not_false_eq_true, and_true]
    exact h x

theorem Counted.drop (h : Counted T tok) (hzero : tok' a = 0) (htok : ∀ x, x ≠ a → tok' x = tok x) :
    Counted (T.drop a) tok' := by
  intro x
  rw [Table.live_drop, Finset.mem_erase]
  by_cases hx : x = a
  · subst hx
    simp [hzero]
  · rw [htok x hx]
    simp only [ne_eq, hx, not_false_eq_true, true_and]
    exact h x

end Rules

/-! ### References held by many -/

section Holders

variable {ι β : Type*} [DecidableEq ι]

/-- One holder among those that count changes what it holds. -/
theorem sum_update_of_mem (share : β → Nat) (g : ι → β) {S : Finset ι} {i : ι} (hi : i ∈ S) (b : β) :
    ∑ j ∈ S, share (Function.update g i b j) + share (g i) = ∑ j ∈ S, share (g j) + share b := by
  have hrest : ∑ j ∈ S.erase i, share (Function.update g i b j) =
      ∑ j ∈ S.erase i, share (g j) := by
    apply Finset.sum_congr rfl
    intro j hj
    rw [Function.update_of_ne (Finset.ne_of_mem_erase hj)]
  have hnew := Finset.add_sum_erase _ (fun j => share (Function.update g i b j)) hi
  have hold := Finset.add_sum_erase _ (fun j => share (g j)) hi
  simp only [Function.update_self] at hnew
  omega

/-- A holder that did not count comes with what it holds. -/
theorem sum_insert_update (share : β → Nat) (g : ι → β) {S : Finset ι} {i : ι} (hi : i ∉ S)
    (b : β) :
    ∑ j ∈ insert i S, share (Function.update g i b j) = ∑ j ∈ S, share (g j) + share b := by
  rw [Finset.sum_insert hi, Function.update_self, Nat.add_comm]
  congr 1
  apply Finset.sum_congr rfl
  intro j hj
  rw [Function.update_of_ne (ne_of_mem_of_not_mem hj hi)]

omit [DecidableEq ι] in
theorem share_le_sum_of_mem (share : β → Nat) (g : ι → β) {S : Finset ι} {i : ι} (hi : i ∈ S) :
    share (g i) ≤ ∑ j ∈ S, share (g j) :=
  Finset.single_le_sum (f := fun j => share (g j)) (fun _ _ => Nat.zero_le _) hi

variable [Fintype ι]

theorem sum_update (share : β → Nat) (g : ι → β) (i : ι) (b : β) :
    ∑ j, share (Function.update g i b j) + share (g i) = ∑ j, share (g j) + share b :=
  sum_update_of_mem share g (Finset.mem_univ i) b

omit [DecidableEq ι] in
theorem share_le_sum (share : β → Nat) (g : ι → β) (i : ι) : share (g i) ≤ ∑ j, share (g j) :=
  share_le_sum_of_mem share g (Finset.mem_univ i)

end Holders

end LineageA1000.RefCount
