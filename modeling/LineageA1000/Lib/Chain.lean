import Mathlib.Data.Fintype.Card
import Mathlib.Logic.Function.Basic

/-!
# Linked lists in a heap

A heap maps pointers to cells; a cell links to the next one. `Chain` says which pointers one visits
from a given one before the end. A chain has no repetitions, so on a finite set of pointers a
bounded walk along it always ends. The walks are those a C program makes: look for the first cell
with some property, and look for the cell before a given
one. -/

namespace LineageA1000

variable {Ptr Cell : Type*}

/-- From `head` the links lead through the pointers of the list, in order, and then end. -/
def Chain (heap : Ptr → Option Cell) (link : Cell → Option Ptr) : Option Ptr → List Ptr → Prop
  | head, [] => head = none
  | head, a :: l => head = some a ∧ ∃ cell, heap a = some cell ∧ Chain heap link (link cell) l

namespace Chain

variable {heap heap' : Ptr → Option Cell} {link : Cell → Option Ptr} {head : Option Ptr}
  {a : Ptr} {l l' : List Ptr} {cell : Cell}

theorem nil_iff : Chain heap link head [] ↔ head = none := Iff.rfl

theorem unique (h : Chain heap link head l) (h' : Chain heap link head l') : l = l' := by
  induction l generalizing head l' with
  | nil =>
      cases l' with
      | nil => rfl
      | cons b l' => cases (nil_iff.1 h).symm.trans h'.1
  | cons a l ih =>
      obtain ⟨hhead, cell, ha, hl⟩ := h
      cases l' with
      | nil => cases hhead.symm.trans (nil_iff.1 h')
      | cons b l' =>
          obtain ⟨hhead', cell', hb, hl'⟩ := h'
          obtain rfl : a = b := Option.some.inj (hhead.symm.trans hhead')
          obtain rfl : cell = cell' := Option.some.inj (ha.symm.trans hb)
          rw [ih hl hl']

/-- Only the links of the listed cells matter. -/
theorem congr (h : Chain heap link head l)
    (heq : ∀ b ∈ l, (heap' b).map link = (heap b).map link) : Chain heap' link head l := by
  induction l generalizing head with
  | nil => exact h
  | cons b l ih =>
      obtain ⟨hhead, cell, hb, hl⟩ := h
      have hb' : (heap' b).map link = some (link cell) := by
        rw [heq b (List.mem_cons_self ..), hb, Option.map_some]
      obtain ⟨cell', hcell', hlink⟩ := Option.map_eq_some_iff.1 hb'
      refine ⟨hhead, cell', hcell', ?_⟩
      rw [hlink]
      exact ih hl fun c hc => heq c (List.mem_cons_of_mem b hc)

theorem of_append {before after : List Ptr} (h : Chain heap link head (before ++ after)) :
    ∃ head', Chain heap link head' after := by
  induction before generalizing head with
  | nil => exact ⟨head, h⟩
  | cons b before ih =>
      obtain ⟨-, cell, -, hl⟩ := h
      exact ih hl

/-- A pointer fixes what follows it, so that a list in which one comes twice would never end. -/
theorem nodup (h : Chain heap link head l) : l.Nodup := by
  induction l generalizing head with
  | nil => exact List.nodup_nil
  | cons a l ih =>
      have htail := h
      obtain ⟨hhead, cell, ha, hl⟩ := htail
      refine List.nodup_cons.2 ⟨fun hmem => ?_, ih hl⟩
      obtain ⟨before, after, rfl⟩ := List.append_of_mem hmem
      obtain ⟨head', hagain⟩ := of_append hl
      have hsame : a :: (before ++ a :: after) = a :: after := by
        apply unique h
        rw [hhead, ← hagain.1]
        exact hagain
      have hlength := congrArg List.length hsame
      simp only [List.length_cons, List.length_append] at hlength
      omega

theorem length_le [Fintype Ptr] (h : Chain heap link head l) : l.length ≤ Fintype.card Ptr :=
  h.nodup.length_le_card

variable [DecidableEq Ptr]

/-- Changing cells outside the list changes nothing. -/
theorem update (h : Chain heap link head l) (ha : a ∉ l) (o : Option Cell) :
    Chain (Function.update heap a o) link head l := by
  apply h.congr
  intro b hb
  rw [Function.update_of_ne (ne_of_mem_of_not_mem hb ha)]

/-- Changing a cell but not its link changes nothing. -/
theorem update_same (h : Chain heap link head l) {cell' : Cell} (ha : heap a = some cell)
    (hlink : link cell' = link cell) :
    Chain (Function.update heap a (some cell')) link head l := by
  apply h.congr
  intro b _
  by_cases hba : b = a
  · subst hba
    rw [Function.update_self, ha, Option.map_some, Option.map_some, hlink]
  · rw [Function.update_of_ne hba]

/-! ### Walks -/

/-- The first cell with the property: `some none` at the end of the list, and `none` where the walk
leaves the heap or does not end. -/
def findFrom (heap : Ptr → Option Cell) (link : Cell → Option Ptr) (p : Cell → Bool) :
    Nat → Option Ptr → Option (Option Ptr)
  | _, none => some none
  | 0, some _ => none
  | fuel + 1, some a =>
      match heap a with
      | none => none
      | some cell => if p cell then some (some a) else findFrom heap link p fuel (link cell)

/-- The cell whose link is `target`, from a cell on. -/
def prevFrom (heap : Ptr → Option Cell) (link : Cell → Option Ptr) (target : Ptr) :
    Nat → Option Ptr → Option Ptr
  | _, none => none
  | 0, some _ => none
  | fuel + 1, some a =>
      match heap a with
      | none => none
      | some cell =>
          if link cell = some target then some a else prevFrom heap link target fuel (link cell)

omit [DecidableEq Ptr] in
/-- The walk ends, with a member of the list that has the property or with none. -/
theorem findFrom_spec (h : Chain heap link head l) (p : Cell → Bool) {fuel : Nat}
    (hfuel : l.length ≤ fuel) :
    ∃ found, findFrom heap link p fuel head = some found ∧
      ∀ b, found = some b → b ∈ l ∧ ∃ cell, heap b = some cell ∧ p cell = true := by
  induction l generalizing head fuel with
  | nil =>
      rw [nil_iff.1 h]
      refine ⟨none, ?_, fun b hb => by cases hb⟩
      cases fuel <;> rfl
  | cons a l ih =>
      obtain ⟨rfl, cell, ha, hl⟩ := h
      obtain ⟨fuel, rfl⟩ := Nat.exists_eq_add_of_lt (Nat.lt_of_lt_of_le (Nat.succ_pos _) hfuel)
      rw [Nat.zero_add, findFrom, ha]
      dsimp only
      split
      · rename_i hp
        refine ⟨some a, rfl, fun b hb => ?_⟩
        obtain rfl := Option.some.inj hb
        exact ⟨List.mem_cons_self .., cell, ha, hp⟩
      · have hfuel' : l.length ≤ fuel := by
          rw [List.length_cons] at hfuel
          omega
        obtain ⟨found, hfound, hmem⟩ := ih hl hfuel'
        refine ⟨found, hfound, fun b hb => ?_⟩
        obtain ⟨hb, hcell⟩ := hmem b hb
        exact ⟨List.mem_cons_of_mem a hb, hcell⟩

omit [DecidableEq Ptr] in
/-- A walk that comes to the end has met no cell with the property. -/
theorem findFrom_none (h : Chain heap link head l) (p : Cell → Bool) {fuel : Nat}
    (hfind : findFrom heap link p fuel head = some none) :
    ∀ b ∈ l, ∀ cell, heap b = some cell → p cell = false := by
  induction l generalizing head fuel with
  | nil =>
      intro b hb
      cases hb
  | cons a l ih =>
      obtain ⟨rfl, cell, ha, hl⟩ := h
      cases fuel with
      | zero => cases hfind
      | succ fuel =>
          rw [findFrom, ha] at hfind
          dsimp only at hfind
          split at hfind
          · cases Option.some.inj hfind
          · rename_i hp
            intro b hb cellB hcellB
            obtain rfl | hb := List.mem_cons.1 hb
            · obtain rfl : cell = cellB := Option.some.inj (ha.symm.trans hcellB)
              exact Bool.eq_false_iff.2 hp
            · exact ih hl hfind b hb cellB hcellB

/-- Past the head, the walk finds the cell before the target; taking the target's link over to it
takes the target out of the list. -/
theorem prevFrom_spec (setLink : Cell → Option Ptr → Cell)
    (hset : ∀ cell o, link (setLink cell o) = o) {b : Ptr} (h : Chain heap link head l)
    (hhead : head ≠ some b) (hb : b ∈ l) (hcell : heap b = some cell) {fuel : Nat}
    (hfuel : l.length ≤ fuel) :
    ∃ prev prevCell, prevFrom heap link b fuel head = some prev ∧ prev ∈ l ∧ prev ≠ b ∧
      heap prev = some prevCell ∧
      Chain (Function.update heap prev (some (setLink prevCell (link cell)))) link head
        (l.erase b) := by
  induction l generalizing head fuel with
  | nil => cases hb
  | cons a l ih =>
      have hnodup := h.nodup
      obtain ⟨rfl, cellA, ha, hl⟩ := h
      have hab : a ≠ b := fun hab => hhead (congrArg some hab)
      have hbl : b ∈ l := (List.mem_cons.1 hb).resolve_left hab.symm
      have hal : a ∉ l := (List.nodup_cons.1 hnodup).1
      obtain ⟨fuel, rfl⟩ := Nat.exists_eq_add_of_lt (Nat.lt_of_lt_of_le (Nat.succ_pos _) hfuel)
      rw [Nat.zero_add, prevFrom, ha]
      dsimp only
      rw [List.erase_cons_tail (by simpa using hab)]
      split
      · -- the target is the next cell
        rename_i hnext
        refine ⟨a, cellA, rfl, List.mem_cons_self .., hab, ha, rfl,
          setLink cellA (link cell), Function.update_self .., ?_⟩
        rw [hset]
        obtain ⟨c, l, rfl⟩ := List.exists_cons_of_ne_nil (List.ne_nil_of_mem hbl)
        obtain ⟨hc, cellC, hcellC, hrest⟩ := hl
        obtain rfl : b = c := Option.some.inj (hnext.symm.trans hc)
        obtain rfl : cell = cellC := Option.some.inj (hcell.symm.trans hcellC)
        rw [List.erase_cons_head]
        exact hrest.update (fun hmem => hal (List.mem_cons_of_mem b hmem)) _
      · rename_i hnext
        have hfuel' : l.length ≤ fuel := by
          rw [List.length_cons] at hfuel
          omega
        obtain ⟨prev, prevCell, hprev, hmem, hne, hheap, hchain⟩ := ih hl hnext hbl hfuel'
        have haprev : a ≠ prev := fun heq => hal (heq ▸ hmem)
        refine ⟨prev, prevCell, hprev, List.mem_cons_of_mem a hmem, hne, hheap, rfl, cellA, ?_,
          hchain⟩
        rw [Function.update_of_ne haprev, ha]

end Chain

end LineageA1000
