import Mathlib.Logic.Basic
import Mathlib.Data.List.Basic
import Mathlib.Data.Set.Basic

/-!
# Runs of a step function

A system is a step function `State → Event → State`. A run is a list of events taken from a first
state. Two properties of runs are enough for the whole development: a state property that holds in
every state the run visits, and a step property that holds of every step the run takes. The rules
below turn one-step facts into facts about runs of any length.
-/

namespace LineageA1000.Run

variable {State Event : Type*} (step : State → Event → State)

/-- The state after a run. -/
def final (start : State) (events : List Event) : State := events.foldl step start

/-- The property holds in every state the run visits, the first and the last included. -/
def Always (P : State → Prop) : State → List Event → Prop
  | s, [] => P s
  | s, e :: es => P s ∧ Always P (step s e) es

/-- The property holds of every step the run takes, read at the state before the step. -/
def EachStep (Q : State → Event → Prop) : State → List Event → Prop
  | _, [] => True
  | s, e :: es => Q s e ∧ EachStep Q (step s e) es

variable {step} {P P' : State → Prop} {Q R : State → Event → Prop}

@[simp] theorem final_nil (s : State) : final step s [] = s := rfl

@[simp] theorem final_cons (s : State) (e : Event) (es : List Event) :
    final step s (e :: es) = final step (step s e) es := rfl

theorem final_append (s : State) (es es' : List Event) :
    final step s (es ++ es') = final step (final step s es) es' := List.foldl_append

@[simp] theorem always_nil (s : State) : Always step P s [] ↔ P s := Iff.rfl

@[simp] theorem always_cons (s : State) (e : Event) (es : List Event) :
    Always step P s (e :: es) ↔ P s ∧ Always step P (step s e) es := Iff.rfl

@[simp] theorem eachStep_nil (s : State) : EachStep step Q s [] := trivial

@[simp] theorem eachStep_cons (s : State) (e : Event) (es : List Event) :
    EachStep step Q s (e :: es) ↔ Q s e ∧ EachStep step Q (step s e) es := Iff.rfl

instance decidableAlways [DecidablePred P] :
    ∀ (s : State) (es : List Event), Decidable (Always step P s es)
  | s, [] => inferInstanceAs (Decidable (P s))
  | s, e :: es => @instDecidableAnd _ _ _ (decidableAlways (step s e) es)

instance decidableEachStep [∀ s e, Decidable (Q s e)] :
    ∀ (s : State) (es : List Event), Decidable (EachStep step Q s es)
  | _, [] => inferInstanceAs (Decidable True)
  | s, e :: es => @instDecidableAnd _ _ _ (decidableEachStep (step s e) es)

theorem Always.head {s : State} {es : List Event} (h : Always step P s es) : P s := by
  cases es with
  | nil => exact h
  | cons e es => exact h.1

/-- The invariant rule: a property that every allowed step preserves holds along every run of
allowed steps. -/
theorem always_of_eachStep (hstep : ∀ s e, P s → Q s e → P (step s e)) {s : State}
    {es : List Event} (hs : P s) (hes : EachStep step Q s es) : Always step P s es := by
  induction es generalizing s with
  | nil => exact hs
  | cons e es ih => exact ⟨hs, ih (hstep s e hs hes.1) hes.2⟩

/-- The exact invariant rule: when `Q` is exactly the condition under which one step preserves `P`,
a run keeps `P` throughout if and only if each of its steps meets `Q`. -/
theorem always_iff_eachStep (hstep : ∀ s e, P s → (P (step s e) ↔ Q s e)) {s : State}
    {es : List Event} (hs : P s) : Always step P s es ↔ EachStep step Q s es := by
  induction es generalizing s with
  | nil => exact ⟨fun _ => trivial, fun _ => hs⟩
  | cons e es ih =>
      constructor
      · intro ⟨_, htail⟩
        have hnext : P (step s e) := htail.head
        exact ⟨(hstep s e hs).1 hnext, (ih hnext).1 htail⟩
      · intro ⟨hok, htail⟩
        have hnext : P (step s e) := (hstep s e hs).2 hok
        exact ⟨hs, (ih hnext).2 htail⟩

/-- As `always_iff_eachStep`, for a property that is exact only in the states of an invariant: a
step from such a state keeps the property only under `Q`, and under `Q` the invariant goes on. -/
theorem always_iff_eachStep_of_invariant (hkeep : ∀ s e, P s → Q s e → P (step s e))
    (hbreak : ∀ s e, P s → P' (step s e) → Q s e) (himp : ∀ s, P s → P' s) {s : State}
    {es : List Event} (hs : P s) : Always step P' s es ↔ EachStep step Q s es := by
  induction es generalizing s with
  | nil => exact ⟨fun _ => trivial, fun _ => himp s hs⟩
  | cons e es ih =>
      constructor
      · intro ⟨_, htail⟩
        have hok : Q s e := hbreak s e hs htail.head
        exact ⟨hok, (ih (hkeep s e hs hok)).1 htail⟩
      · intro ⟨hok, htail⟩
        exact ⟨himp s hs, (ih (hkeep s e hs hok)).2 htail⟩

/-- As `always_iff_eachStep_of_invariant`, for runs of allowed steps. -/
theorem always_iff_eachStep_of_allowed (hkeep : ∀ s e, P s → R s e → Q s e → P (step s e))
    (hbreak : ∀ s e, P s → R s e → P' (step s e) → Q s e) (himp : ∀ s, P s → P' s) {s : State}
    {es : List Event} (hs : P s) (hes : EachStep step R s es) :
    Always step P' s es ↔ EachStep step Q s es := by
  induction es generalizing s with
  | nil => exact ⟨fun _ => trivial, fun _ => himp s hs⟩
  | cons e es ih =>
      rw [always_cons, eachStep_cons]
      constructor
      · rintro ⟨-, htail⟩
        have hok : Q s e := hbreak s e hs hes.1 htail.head
        exact ⟨hok, (ih (hkeep s e hs hes.1 hok) hes.2).1 htail⟩
      · rintro ⟨hok, htail⟩
        exact ⟨himp s hs, (ih (hkeep s e hs hes.1 hok) hes.2).2 htail⟩

/-- As `always_iff_eachStep_of_invariant`, for a property of the steps. -/
theorem eachStep_iff_of_invariant (hkeep : ∀ s e, P s → R s e → P (step s e))
    (hiff : ∀ s e, P s → (Q s e ↔ R s e)) {s : State} {es : List Event} (hs : P s) :
    EachStep step Q s es ↔ EachStep step R s es := by
  induction es generalizing s with
  | nil => exact Iff.rfl
  | cons e es ih =>
      constructor
      · intro ⟨hq, htail⟩
        have hr : R s e := (hiff s e hs).1 hq
        exact ⟨hr, (ih (hkeep s e hs hr)).1 htail⟩
      · intro ⟨hr, htail⟩
        exact ⟨(hiff s e hs).2 hr, (ih (hkeep s e hs hr)).2 htail⟩

/-- What one step does in a state that satisfies the invariant, every step of the run does. -/
theorem eachStep_of_always (himp : ∀ s e, P s → R s e) {s : State} {es : List Event}
    (h : Always step P s es) : EachStep step R s es := by
  induction es generalizing s with
  | nil => trivial
  | cons e es ih => exact ⟨himp s e h.1, ih h.2⟩

/-- As `eachStep_of_always`, for steps that also meet a condition. -/
theorem eachStep_of_always_of_eachStep (himp : ∀ s e, P s → Q s e → R s e) {s : State}
    {es : List Event} (h : Always step P s es) (hes : EachStep step Q s es) :
    EachStep step R s es := by
  induction es generalizing s with
  | nil => trivial
  | cons e es ih => exact ⟨himp s e h.1 hes.1, ih h.2 hes.2⟩

theorem eachStep_of_forall {Q : Event → Prop} {s : State} {es : List Event} (h : ∀ e ∈ es, Q e) :
    EachStep step (fun _ e => Q e) s es := by
  induction es generalizing s with
  | nil => trivial
  | cons e es ih =>
      obtain ⟨he, hes⟩ := List.forall_mem_cons.1 h
      exact ⟨he, ih hes⟩

theorem EachStep.last {s : State} {es : List Event} {e : Event}
    (h : EachStep step Q s (es ++ [e])) : Q (final step s es) e := by
  induction es generalizing s with
  | nil => exact h.1
  | cons e' es ih => exact ih h.2

theorem EachStep.mono (himp : ∀ s e, Q s e → R s e) {s : State} {es : List Event}
    (h : EachStep step Q s es) : EachStep step R s es := by
  induction es generalizing s with
  | nil => trivial
  | cons e es ih => exact ⟨himp s e h.1, ih h.2⟩

theorem Always.mono (himp : ∀ s, P s → P' s) {s : State} {es : List Event}
    (h : Always step P s es) : Always step P' s es := by
  induction es generalizing s with
  | nil => exact himp s h
  | cons e es ih => exact ⟨himp s h.1, ih h.2⟩

theorem Always.final {s : State} {es : List Event} (h : Always step P s es) :
    P (final step s es) := by
  induction es generalizing s with
  | nil => exact h
  | cons e es ih => exact ih h.2

/-- The accumulation rule: when each step adds its event's part to what the state relates, a run
adds the parts of all its events, in whatever order they came. -/
theorem final_accumulates {A : Type*} (rel : State → Set A) (adds : Event → Set A)
    (hstep : ∀ s e, P s → P (step s e) ∧ rel (step s e) = rel s ∪ adds e) {s : State}
    {es : List Event} (hs : P s) :
    P (Run.final step s es) ∧
      rel (Run.final step s es) = rel s ∪ {a | ∃ e ∈ es, a ∈ adds e} := by
  induction es generalizing s with
  | nil =>
      refine ⟨hs, ?_⟩
      ext a
      simp only [final_nil, List.not_mem_nil, false_and, exists_false, Set.ofPred_false,
        Set.union_empty]
  | cons e es ih =>
      obtain ⟨hnext, hadd⟩ := hstep s e hs
      obtain ⟨hfinal, hrel⟩ := ih hnext
      refine ⟨hfinal, ?_⟩
      rw [final_cons, hrel, hadd, Set.union_assoc]
      ext a
      simp only [Set.mem_union, Set.mem_ofPred_eq, List.mem_cons, exists_eq_or_imp]

/-! ### Simulation -/

/-- What each step of the run looks like to another level. -/
def seen {Act : Type*} (step : State → Event → State) (read : State → Event → Act) :
    State → List Event → List Act
  | _, [] => []
  | s, e :: es => read s e :: seen step read (step s e) es

/-- The simulation rule: when a view of the state follows each step by a step of its own, it follows
every run. -/
theorem final_simulates {View Act : Type*} (view : State → View) (read : State → Event → Act)
    (act : View → Act → View)
    (hstep : ∀ s e, P s → Q s e → P (step s e) ∧ view (step s e) = act (view s) (read s e))
    {s : State} {es : List Event} (hs : P s) (hes : EachStep step Q s es) :
    view (final step s es) = final act (view s) (seen step read s es) := by
  induction es generalizing s with
  | nil => rfl
  | cons e es ih =>
      obtain ⟨hnext, hview⟩ := hstep s e hs hes.1
      rw [final_cons, ih hnext hes.2, hview, seen, final_cons]

end LineageA1000.Run
