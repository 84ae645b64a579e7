import LineageA1000.Creds.Counting
import Mathlib.Algebra.BigOperators.Group.Finset.Piecewise

/-!
# Sharing credentials

The invariant lasts, so over any run no count goes wrong. A step writes only to sets that were just
made and to the copy its own call fills in, which nobody reads.
-/

namespace LineageA1000.Creds

open Caps RefCount

variable {Tid : Type*} [DecidableEq Tid]

/-! ### What a step leaves alone -/

/-- The call's task, where the event is about the copy it fills in. -/
def Event.owner : Event Tid → Option Tid
  | .prepare t _ | .commit t _ | .abort t | .keep t _ => some t
  | _ => none

/-- The sets that the step may write to or hand out: the call's own copy and those just made. -/
def Writable (s : System Tid) (e : Event Tid) (c : CredId) : Prop :=
  c ∉ s.creds.live ∨ ∃ t ∈ e.owner, c ∈ (s.task t).building

theorem content_uncounted {s : System Tid} {e : Event Tid} (hp : Possible s e) {c : CredId}
    (hc : ¬ Writable s e c) : (uncounted s e).content c = s.content c := by
  have hlive : c ∈ s.creds.live := by
    by_contra hfree
    exact hc (.inl hfree)
  have hset : ∀ {d : CredId} (new : Cred), d ∉ s.creds.live → (s.setContent d new).content c =
      s.content c := fun new hd => Function.update_of_ne (ne_of_mem_of_not_mem hlive hd) ..
  have hdraft : ∀ {t : Tid} {d : CredId} (new : Cred), t ∈ e.owner → (s.task t).building = some d →
      (s.setContent d new).content c = s.content c := by
    intro t d new ht hd
    apply Function.update_of_ne
    rintro rfl
    exact hc (.inr ⟨t, ht, hd⟩)
  cases e with
  | prepare t x =>
      cases x with
      | none => rfl
      | some d => exact hset _ (hp.2.2 d rfl)
  | commit t edit =>
      cases hb : (s.task t).building with
      | none => simp only [uncounted, hb]
      | some d =>
          simp only [uncounted, hb]
          exact hdraft _ rfl hb
  | abort t =>
      cases hb : (s.task t).building with
      | none => simp only [uncounted, hb]
      | some d =>
          simp only [uncounted, hb]
          rfl
  | keep t edit =>
      cases hb : (s.task t).building with
      | none => simp only [uncounted, hb]
      | some d =>
          simp only [uncounted, hb]
          exact hdraft _ rfl hb
  | kernelCred t daemon d edit => exact hset _ hp.2.2
  | override t d => rfl
  | revert t =>
      cases hsaved : (s.task t).saved with
      | nil => simp only [uncounted, hsaved]
      | cons old rest =>
          simp only [uncounted, hsaved]
          rfl
  | fork t u thread x =>
      cases thread with
      | true => rfl
      | false =>
          cases x with
          | none => rfl
          | some d => exact hset _ (hp.2.2 d rfl)
  | exit current t => rfl
  | pin t objective => rfl
  | unpin current d => rfl

/-- Only one task's record changes. -/
theorem published_of_task {s s' : System Tid} {t : Tid} {p : Task} {c : CredId}
    (hc : Published s' c) (halive : s'.alive ⊆ insert t s.alive)
    (htask : s'.task = Function.update s.task t p) (helse : s'.elsewhere = s.elsewhere) :
    p.Uses c ∨ Published s c := by
  rcases hc with ⟨u, hu, huses⟩ | hheld
  · rw [htask] at huses
    by_cases hut : u = t
    · subst hut
      rw [Function.update_self] at huses
      exact .inl huses
    · rw [Function.update_of_ne hut] at huses
      exact .inr (.inl ⟨u, (Finset.mem_insert.1 (halive hu)).resolve_left hut, huses⟩)
  · rw [helse] at hheld
    exact .inr (.inr hheld)

omit [DecidableEq Tid] in
/-- Only the references elsewhere to one set change. -/
theorem published_of_elsewhere {s s' : System Tid} {d c : CredId} {n : Nat}
    (hc : Published s' c) (halive : s'.alive = s.alive) (htask : s'.task = s.task)
    (helse : s'.elsewhere = Function.update s.elsewhere d n) : c = d ∨ Published s c := by
  rcases hc with ⟨u, hu, huses⟩ | hheld
  · rw [htask] at huses
    exact .inr (.inl ⟨u, halive ▸ hu, huses⟩)
  · by_cases hcd : c = d
    · exact .inl hcd
    · rw [helse, Function.update_of_ne hcd] at hheld
      exact .inr (.inr hheld)

theorem published_uncounted {s : System Tid} {e : Event Tid} (hp : Possible s e) {c : CredId}
    (hc : Published (uncounted s e) c) : Published s c ∨ Writable s e c := by
  have hinsert : ∀ t : Tid, s.alive ⊆ insert t s.alive := fun t => Finset.subset_insert ..
  cases e with
  | prepare t x =>
      cases x with
      | none => exact .inl hc
      | some d =>
          rcases published_of_task hc (hinsert t) rfl rfl with huses | hc
          · exact .inl (.inl ⟨t, hp.1, huses⟩)
          · exact .inl hc
  | commit t edit =>
      cases hb : (s.task t).building with
      | none =>
          simp only [uncounted, hb] at hc
          exact .inl hc
      | some d =>
          simp only [uncounted, hb] at hc
          rcases published_of_task hc (hinsert t) rfl rfl with (rfl | rfl | hsaved) | hc
          · exact .inr (.inr ⟨t, rfl, hb⟩)
          · exact .inr (.inr ⟨t, rfl, hb⟩)
          · exact .inl (.inl ⟨t, hp.1, .inr (.inr hsaved)⟩)
          · exact .inl hc
  | abort t =>
      cases hb : (s.task t).building with
      | none =>
          simp only [uncounted, hb] at hc
          exact .inl hc
      | some d =>
          simp only [uncounted, hb] at hc
          rcases published_of_task hc (hinsert t) rfl rfl with huses | hc
          · exact .inl (.inl ⟨t, hp, huses⟩)
          · exact .inl hc
  | keep t edit =>
      cases hb : (s.task t).building with
      | none =>
          simp only [uncounted, hb] at hc
          exact .inl hc
      | some d =>
          simp only [uncounted, hb] at hc
          let given := (s.setContent d (edit (s.content d))).setTask t
            { s.task t with building := none }
          rcases published_of_elsewhere (s := given) hc rfl rfl rfl with rfl | hc
          · exact .inr (.inr ⟨t, rfl, hb⟩)
          rcases published_of_task hc (hinsert t) rfl rfl with huses | hc
          · exact .inl (.inl ⟨t, hp, huses⟩)
          · exact .inl hc
  | kernelCred t daemon d edit =>
      rcases published_of_elsewhere (s := s) hc rfl rfl rfl with rfl | hc
      · exact .inr (.inl hp.2.2)
      · exact .inl hc
  | override t d =>
      rcases published_of_task hc (hinsert t) rfl rfl with (hreal | rfl | hsaved) | hc
      · exact .inl (.inl ⟨t, hp.1, .inl hreal⟩)
      · exact .inl (.inr hp.2.2)
      · rcases List.mem_cons.1 hsaved with hcred | hsaved
        · exact .inl (.inl ⟨t, hp.1, .inr (.inl hcred)⟩)
        · exact .inl (.inl ⟨t, hp.1, .inr (.inr hsaved)⟩)
      · exact .inl hc
  | revert t =>
      cases hsaved : (s.task t).saved with
      | nil =>
          simp only [uncounted, hsaved] at hc
          exact .inl hc
      | cons old rest =>
          simp only [uncounted, hsaved] at hc
          rcases published_of_task hc (hinsert t) rfl rfl with (hreal | rfl | hrest) | hc
          · exact .inl (.inl ⟨t, hp.1, .inl hreal⟩)
          · exact .inl (.inl ⟨t, hp.1, .inr (.inr (hsaved ▸ List.mem_cons_self))⟩)
          · exact .inl (.inl ⟨t, hp.1, .inr (.inr (hsaved ▸ List.mem_cons_of_mem _ hrest))⟩)
          · exact .inl hc
  | fork t u thread x =>
      cases thread with
      | true =>
          rcases published_of_task hc subset_rfl rfl rfl with (rfl | rfl | hnil) | hc
          · exact .inl (.inl ⟨t, hp.1, .inr (.inl rfl)⟩)
          · exact .inl (.inl ⟨t, hp.1, .inr (.inl rfl)⟩)
          · cases hnil
          · exact .inl hc
      | false =>
          cases x with
          | none => exact .inl hc
          | some d =>
              rcases published_of_task hc subset_rfl rfl rfl with (rfl | rfl | hnil) | hc
              · exact .inr (.inl (hp.2.2 c rfl))
              · exact .inr (.inl (hp.2.2 c rfl))
              · cases hnil
              · exact .inl hc
  | exit current t =>
      rcases hc with ⟨u, hu, huses⟩ | hheld
      · exact .inl (.inl ⟨u, Finset.mem_of_mem_erase hu, huses⟩)
      · exact .inl (.inr hheld)
  | pin t objective =>
      rcases published_of_elsewhere (s := s) hc rfl rfl rfl with rfl | hc
      · refine .inl (.inl ⟨t, hp, ?_⟩)
        cases objective with
        | true => exact .inl rfl
        | false => exact .inr (.inl rfl)
      · exact .inl hc
  | unpin current d =>
      rcases published_of_elsewhere (s := s) hc rfl rfl rfl with rfl | hc
      · refine .inl (.inr ?_)
        have hheld : (if c = initCred then 2 else 0) < s.elsewhere c := hp.2
        omega
      · exact .inl hc

/-- Only one task's record changes. -/
theorem building_of_task {s s' : System Tid} {t u : Tid} {p : Task} {c : CredId}
    (hu : u ∈ s'.alive) (hc : c ∈ (s'.task u).building) (halive : s'.alive ⊆ insert t s.alive)
    (htask : s'.task = Function.update s.task t p) :
    u = t ∧ c ∈ p.building ∨
      u ≠ t ∧ u ∈ s.alive ∧ c ∈ (s.task u).building ∧ (s'.task u).cred = (s.task u).cred := by
  rw [htask] at hc ⊢
  by_cases hut : u = t
  · subst hut
    rw [Function.update_self] at hc
    exact .inl ⟨rfl, hc⟩
  · rw [Function.update_of_ne hut] at hc ⊢
    exact .inr ⟨hut, (Finset.mem_insert.1 (halive hu)).resolve_left hut, hc, rfl⟩

/-- After a commit, an abort or a keep, the task has no copy of its own. -/
theorem task_of_release {s : System Tid} {e : Event Tid} {t : Tid} (ht : t ∈ e.owner)
    (hother : ∀ c, e ≠ .prepare t c) :
    (uncounted s e).alive = s.alive ∧
      ∃ p : Task, p.building = none ∧ (uncounted s e).task = Function.update s.task t p := by
  have hsame : (s.task t).building = none →
      ∃ p : Task, p.building = none ∧ s.task = Function.update s.task t p :=
    fun hb => ⟨s.task t, hb, (Function.update_eq_self t s.task).symm⟩
  cases e with
  | prepare u c =>
      obtain rfl := Option.some.inj ht
      exact absurd rfl (hother c)
  | commit u edit =>
      obtain rfl := Option.some.inj ht
      cases hb : (s.task u).building with
      | none =>
          simp only [uncounted, hb, true_and]
          exact hsame hb
      | some d =>
          simp only [uncounted, hb]
          exact ⟨rfl, _, rfl, rfl⟩
  | abort u =>
      obtain rfl := Option.some.inj ht
      cases hb : (s.task u).building with
      | none =>
          simp only [uncounted, hb, true_and]
          exact hsame hb
      | some d =>
          simp only [uncounted, hb]
          exact ⟨rfl, _, rfl, rfl⟩
  | keep u edit =>
      obtain rfl := Option.some.inj ht
      cases hb : (s.task u).building with
      | none =>
          simp only [uncounted, hb, true_and]
          exact hsame hb
      | some d =>
          simp only [uncounted, hb]
          exact ⟨rfl, _, rfl, rfl⟩
  | _ => cases ht

/-- A copy being filled in has just been made, or it is as it was and the step is about another
task's. -/
theorem building_uncounted {s : System Tid} {e : Event Tid} (hp : Possible s e) {u : Tid} {c : CredId}
    (hu : u ∈ (uncounted s e).alive) (hc : c ∈ ((uncounted s e).task u).building) :
    e = .prepare u (some c) ∨
      u ∈ s.alive ∧ c ∈ (s.task u).building ∧ ((uncounted s e).task u).cred = (s.task u).cred ∧
        u ∉ e.owner := by
  have hinsert : ∀ t : Tid, s.alive ⊆ insert t s.alive := fun t => Finset.subset_insert ..
  have hrelease : ∀ {t : Tid}, t ∈ e.owner → (∀ c, e ≠ .prepare t c) →
      u ∈ s.alive ∧ c ∈ (s.task u).building ∧ ((uncounted s e).task u).cred = (s.task u).cred ∧
        u ∉ e.owner := by
    intro t ht hother
    obtain ⟨halive, p, hnone, htask⟩ := task_of_release (s := s) ht hother
    rcases building_of_task hu hc (halive ▸ hinsert t) htask with ⟨-, hd⟩ | ⟨hne, hua, hcb, hcred⟩
    · rw [hnone] at hd
      cases hd
    · exact ⟨hua, hcb, hcred, fun h => hne (Option.mem_unique h ht)⟩
  cases e with
  | prepare t x =>
      cases x with
      | none =>
          have hother : u ≠ t := by
            rintro rfl
            rw [uncounted, hp.2.1] at hc
            cases hc
          exact .inr ⟨hu, hc, rfl, fun h => hother (Option.some.inj h).symm⟩
      | some d =>
          rcases building_of_task hu hc (hinsert t) rfl with ⟨rfl, hd⟩ | ⟨hne, hua, hcb, hcred⟩
          · rw [Option.some.inj hd]
            exact .inl rfl
          · exact .inr ⟨hua, hcb, hcred, fun h => hne (Option.some.inj h).symm⟩
  | commit t edit => exact .inr (hrelease rfl fun c h => by cases h)
  | abort t => exact .inr (hrelease rfl fun c h => by cases h)
  | keep t edit => exact .inr (hrelease rfl fun c h => by cases h)
  | kernelCred t daemon d edit => exact .inr ⟨hu, hc, rfl, Option.not_mem_none u⟩
  | override t d =>
      rcases building_of_task hu hc (hinsert t) rfl with ⟨rfl, hd⟩ | ⟨hne, hua, hcb, hcred⟩
      · rw [hp.2.1] at hd
        cases hd
      · exact .inr ⟨hua, hcb, hcred, Option.not_mem_none u⟩
  | revert t =>
      cases hsaved : (s.task t).saved with
      | nil =>
          simp only [uncounted, hsaved] at hu hc ⊢
          exact .inr ⟨hu, hc, trivial, Option.not_mem_none u⟩
      | cons old rest =>
          simp only [uncounted, hsaved] at hu hc ⊢
          rcases building_of_task hu hc (hinsert t) rfl with ⟨rfl, hd⟩ | ⟨hne, hua, hcb, hcred⟩
          · rw [hp.2] at hd
            cases hd
          · exact .inr ⟨hua, hcb, hcred, Option.not_mem_none u⟩
  | fork t v thread x =>
      cases thread with
      | true =>
          rcases building_of_task hu hc subset_rfl rfl with ⟨rfl, hd⟩ | ⟨hne, hua, hcb, hcred⟩
          · cases hd
          · exact .inr ⟨hua, hcb, hcred, Option.not_mem_none u⟩
      | false =>
          cases x with
          | none => exact .inr ⟨hu, hc, rfl, Option.not_mem_none u⟩
          | some d =>
              rcases building_of_task hu hc subset_rfl rfl with ⟨rfl, hd⟩ | ⟨hne, hua, hcb, hcred⟩
              · cases hd
              · exact .inr ⟨hua, hcb, hcred, Option.not_mem_none u⟩
  | exit current t =>
      exact .inr ⟨Finset.mem_of_mem_erase hu, hc, rfl, Option.not_mem_none u⟩
  | pin t objective => exact .inr ⟨hu, hc, rfl, Option.not_mem_none u⟩
  | unpin current d => exact .inr ⟨hu, hc, rfl, Option.not_mem_none u⟩

/-! ### The invariant lasts -/

section Lasts

variable {s : System Tid} {e : Event Tid} {t : Tid} {c : CredId}

omit [DecidableEq Tid] in
theorem mem_alive_of_owner (hp : Possible s e) (ht : t ∈ e.owner) : t ∈ s.alive := by
  cases e with
  | prepare u c =>
      obtain rfl := Option.some.inj ht
      exact hp.1
  | commit u edit =>
      obtain rfl := Option.some.inj ht
      exact hp.1
  | abort u =>
      obtain rfl := Option.some.inj ht
      exact hp
  | keep u edit =>
      obtain rfl := Option.some.inj ht
      exact hp
  | _ => cases ht

omit [DecidableEq Tid] in
/-- Nobody writes to a set that somebody reads. -/
theorem Sound.not_writable (h : Sound s) (hp : Possible s e) (hc : Published s c) :
    ¬ Writable s e c := by
  rintro (hfree | ⟨t, ht, hb⟩)
  · exact hfree (h.live_of_published hc)
  · exact h.unpublished t (mem_alive_of_owner hp ht) c hb hc

/-- Only a commit of its own changes a task's objective set. -/
theorem realCred_uncounted (hp : Possible s e) (ht : t ∈ s.alive)
    (hcommit : ∀ edit, e ≠ .commit t edit) :
    ((uncounted s e).task t).realCred = (s.task t).realCred := by
  have hupdate : ∀ {u : Tid} {p : Task}, p.realCred = (s.task u).realCred →
      (Function.update s.task u p t).realCred = (s.task t).realCred := by
    intro u p hreal
    by_cases htu : t = u
    · subst htu
      rw [Function.update_self, hreal]
    · rw [Function.update_of_ne htu]
  cases e with
  | prepare u x =>
      cases x with
      | none => rfl
      | some d => exact hupdate rfl
  | commit u edit =>
      have htu : t ≠ u := by
        rintro rfl
        exact hcommit edit rfl
      cases hb : (s.task u).building with
      | none => simp only [uncounted, hb]
      | some d =>
          simp only [uncounted, hb]
          exact congrArg Task.realCred (Function.update_of_ne htu ..)
  | abort u =>
      cases hb : (s.task u).building with
      | none => simp only [uncounted, hb]
      | some d =>
          simp only [uncounted, hb]
          exact hupdate rfl
  | keep u edit =>
      cases hb : (s.task u).building with
      | none => simp only [uncounted, hb]
      | some d =>
          simp only [uncounted, hb]
          exact hupdate rfl
  | override u d => exact hupdate rfl
  | revert u =>
      cases hsaved : (s.task u).saved with
      | nil => simp only [uncounted, hsaved]
      | cons old rest =>
          simp only [uncounted, hsaved]
          exact hupdate rfl
  | fork u v thread x =>
      have htv : t ≠ v := ne_of_mem_of_not_mem ht hp.2.1
      cases thread with
      | true => exact congrArg Task.realCred (Function.update_of_ne htv ..)
      | false =>
          cases x with
          | none => rfl
          | some d => exact congrArg Task.realCred (Function.update_of_ne htv ..)
  | _ => rfl

theorem Sound.objective_uncounted (h : Sound s) (hp : Possible s e) (ht : t ∈ s.alive)
    (hcommit : ∀ edit, e ≠ .commit t edit) : objective (uncounted s e) t = objective s t := by
  have hread : Published s (s.task t).realCred := .inl ⟨t, ht, .inl rfl⟩
  rw [objective, realCred_uncounted hp ht hcommit, content_uncounted hp (h.not_writable hp hread)]
  rfl

omit [DecidableEq Tid] in
theorem tasksOf_eq_sum (s : System Tid) (u : Kuid) :
    tasksOf s u = ∑ t ∈ s.alive, single u (objective s t).uid := Finset.card_filter ..

theorem stacked_of_task {s' : System Tid} {p : Task} (h : Sound s)
    (halive : s'.alive ⊆ insert t s.alive) (htask : s'.task = Function.update s.task t p)
    (hstacked : p.Stacked) : ∀ u ∈ s'.alive, (s'.task u).Stacked := by
  intro u hu
  rw [htask]
  by_cases hut : u = t
  · subst hut
    rwa [Function.update_self]
  · rw [Function.update_of_ne hut]
    exact h.stack u ((Finset.mem_insert.1 (halive hu)).resolve_left hut)

theorem Sound.stack_uncounted (h : Sound s) (hp : Possible s e) :
    ∀ u ∈ (uncounted s e).alive, ((uncounted s e).task u).Stacked := by
  have hinsert : ∀ t : Tid, s.alive ⊆ insert t s.alive := fun t => Finset.subset_insert ..
  cases e with
  | prepare t x =>
      cases x with
      | none => exact h.stack
      | some d => exact stacked_of_task h (hinsert t) rfl (h.stack t hp.1)
  | commit t edit =>
      cases hb : (s.task t).building with
      | none =>
          simp only [uncounted, hb]
          exact h.stack
      | some d =>
          simp only [uncounted, hb]
          refine stacked_of_task h (hinsert t) rfl ?_
          change (s.task t).saved.getLastD d = d
          rw [hp.2]
          rfl
  | abort t =>
      cases hb : (s.task t).building with
      | none =>
          simp only [uncounted, hb]
          exact h.stack
      | some d =>
          simp only [uncounted, hb]
          exact stacked_of_task h (hinsert t) rfl (h.stack t hp)
  | keep t edit =>
      cases hb : (s.task t).building with
      | none =>
          simp only [uncounted, hb]
          exact h.stack
      | some d =>
          simp only [uncounted, hb]
          exact stacked_of_task h (hinsert t) rfl (h.stack t hp)
  | kernelCred t daemon d edit => exact h.stack
  | override t d =>
      refine stacked_of_task h (hinsert t) rfl ?_
      have hstack := h.stack t hp.1
      simpa only [Task.Stacked, List.getLastD_cons] using hstack
  | revert t =>
      cases hsaved : (s.task t).saved with
      | nil =>
          simp only [uncounted, hsaved]
          exact h.stack
      | cons old rest =>
          simp only [uncounted, hsaved]
          refine stacked_of_task h (hinsert t) rfl ?_
          have hstack := h.stack t hp.1
          simpa only [Task.Stacked, hsaved, List.getLastD_cons] using hstack
  | fork t u thread x =>
      cases thread with
      | true => exact stacked_of_task h subset_rfl rfl rfl
      | false =>
          cases x with
          | none => exact h.stack
          | some d => exact stacked_of_task h subset_rfl rfl rfl
  | exit current t => exact fun u hu => h.stack u (Finset.mem_of_mem_erase hu)
  | pin t objective => exact h.stack
  | unpin current d => exact h.stack

theorem Sound.boot_uncounted (h : Sound s) (hp : Possible s e) :
    2 ≤ (uncounted s e).elsewhere initCred := by
  have hboot := h.boot
  have hmore : ∀ d : CredId,
      2 ≤ Function.update s.elsewhere d (s.elsewhere d + 1) initCred := by
    intro d
    by_cases hd : initCred = d
    · rw [hd, Function.update_self, ← hd]
      omega
    · rwa [Function.update_of_ne hd]
  cases e with
  | prepare t x => cases x <;> exact hboot
  | commit t edit => cases hb : (s.task t).building <;> simp only [uncounted, hb] <;> exact hboot
  | abort t => cases hb : (s.task t).building <;> simp only [uncounted, hb] <;> exact hboot
  | keep t edit =>
      cases hb : (s.task t).building with
      | none =>
          simp only [uncounted, hb]
          exact hboot
      | some d =>
          simp only [uncounted, hb]
          exact hmore d
  | kernelCred t daemon d edit => exact hmore d
  | override t d => exact hboot
  | revert t => cases hsaved : (s.task t).saved <;> simp only [uncounted, hsaved] <;> exact hboot
  | fork t u thread x =>
      cases thread with
      | true => exact hboot
      | false => cases x <;> exact hboot
  | exit current t => exact hboot
  | pin t objective => exact hmore _
  | unpin current d =>
      have hheld : (if d = initCred then 2 else 0) < s.elsewhere d := hp.2
      by_cases hd : initCred = d
      · subst hd
        simp only [if_true] at hheld
        simp only [uncounted, Function.update_self]
        omega
      · simp only [uncounted, Function.update_of_ne hd]
        exact hboot

theorem countProcess_apply (processes : Kuid → Int) (v u : Kuid) (n : Int) :
    countProcess processes v n u = processes u + n * (single u v : Nat) := by
  by_cases hvu : v = u
  · simp [countProcess, hvu]
  · rw [countProcess, Function.update_of_ne (Ne.symm hvu), single_of_ne hvu, Nat.cast_zero,
      Int.mul_zero, Int.add_zero]

/-- A process goes from one user to another. -/
theorem countProcess_moved (processes : Kuid → Int) (new old u : Kuid) :
    (if new ≠ old then countProcess (countProcess processes new 1) old (-1) else processes) u +
      (single u old : Nat) = processes u + (single u new : Nat) := by
  by_cases hsame : new = old
  · rw [if_neg (not_not.2 hsame), hsame]
  · rw [if_pos hsame, countProcess_apply, countProcess_apply]
    omega

theorem objective_commit {edit : Cred → Cred} {d : CredId} (hb : (s.task t).building = some d) :
    objective (uncounted s (.commit t edit)) t = edit (s.content d) := by
  simp only [objective, uncounted, hb, System.setTask, System.setContent, Function.update_self]

/-- A commit moves its task from the processes of one user to those of another. -/
theorem Sound.processes_commit (h : Sound s) {edit : Cred → Cred} (hp : Possible s (.commit t edit))
    {d : CredId} (hb : (s.task t).building = some d) (u : Kuid) :
    (uncounted s (.commit t edit)).processes u = tasksOf (uncounted s (.commit t edit)) u := by
  have hcount := h.processes u
  let new := (edit (s.content d)).uid
  let old := (objective s t).uid
  have hsum : ∑ x ∈ s.alive, single u (Function.update (fun x => (objective s x).uid) t new x) +
      single u old = ∑ x ∈ s.alive, single u (objective s x).uid + single u new :=
    sum_update_of_mem (single u) (fun x => (objective s x).uid) hp.1 new
  have hafter : ∑ x ∈ s.alive, single u (objective (uncounted s (.commit t edit)) x).uid =
      ∑ x ∈ s.alive, single u (Function.update (fun x => (objective s x).uid) t new x) := by
    refine Finset.sum_congr rfl fun x hx => ?_
    by_cases hxt : x = t
    · subst hxt
      rw [objective_commit hb, Function.update_self]
    · rw [Function.update_of_ne hxt, h.objective_uncounted hp hx]
      rintro edit' heq
      cases heq
      exact hxt rfl
  have hread : Published s (s.task t).realCred := .inl ⟨t, hp.1, .inl rfl⟩
  have hne : (s.task t).realCred ≠ d := by
    rintro rfl
    exact h.unpublished t hp.1 _ hb hread
  have hmoved := countProcess_moved s.processes new old u
  have hprocesses : (uncounted s (.commit t edit)).processes =
      if new ≠ old then countProcess (countProcess s.processes new 1) old (-1)
      else s.processes := by
    simp only [uncounted, hb, System.setTask, System.setContent, Function.update_self,
      Function.update_of_ne hne]
    rfl
  have halive : (uncounted s (.commit t edit)).alive = s.alive := by
    simp only [uncounted, hb]
    rfl
  rw [tasksOf_eq_sum] at hcount ⊢
  rw [hprocesses, halive, hafter]
  omega

theorem Sound.processes_uncounted (h : Sound s) (hp : Possible s e) (u : Kuid) :
    (uncounted s e).processes u = tasksOf (uncounted s e) u := by
  have hcount := h.processes u
  rw [tasksOf_eq_sum] at hcount ⊢
  have hsame : ∀ {S : Finset Tid}, S ⊆ s.alive → (∀ t ∈ S, ∀ edit, e ≠ .commit t edit) →
      ∑ t ∈ S, single u (objective (uncounted s e) t).uid = ∑ t ∈ S, single u (objective s t).uid := by
    intro S hS hcommit
    refine Finset.sum_congr rfl fun t ht => ?_
    rw [h.objective_uncounted hp (hS ht) (hcommit t ht)]
  have hstill : (∀ t edit, e ≠ .commit t edit) → (uncounted s e).processes = s.processes →
      (uncounted s e).alive = s.alive →
      (uncounted s e).processes u =
        (∑ t ∈ (uncounted s e).alive, single u (objective (uncounted s e) t).uid : Nat) := by
    intro hcommit hprocesses halive
    rw [hprocesses, halive, hsame subset_rfl fun t _ => hcommit t, hcount]
  have hjoined : ∀ {v : Tid} {new : Cred}, v ∉ s.alive → objective (uncounted s e) v = new →
      (∀ t edit, e ≠ .commit t edit) → (uncounted s e).alive = insert v s.alive →
      (uncounted s e).processes = countProcess s.processes new.uid 1 →
      (uncounted s e).processes u =
        (∑ t ∈ (uncounted s e).alive, single u (objective (uncounted s e) t).uid : Nat) := by
    intro v new hv hnew hcommit halive hprocesses
    rw [hprocesses, halive, countProcess_apply, Finset.sum_insert hv, hnew,
      hsame subset_rfl fun t _ => hcommit t]
    omega
  cases e with
  | prepare t x =>
      refine hstill (fun t edit h => by cases h) ?_ ?_ <;>
      · cases x <;> rfl
  | commit t edit =>
      cases hb : (s.task t).building with
      | none =>
          simp only [uncounted, hb]
          exact hcount
      | some d => 
          rw [← tasksOf_eq_sum]
          exact h.processes_commit hp hb u
  | abort t =>
      refine hstill (fun t edit h => by cases h) ?_ ?_ <;>
      · rw [uncounted]
        split <;> rfl
  | keep t edit =>
      refine hstill (fun t edit h => by cases h) ?_ ?_ <;>
      · rw [uncounted]
        split <;> rfl
  | kernelCred t daemon d edit => exact hstill (fun t edit h => by cases h) rfl rfl
  | override t d => exact hstill (fun t edit h => by cases h) rfl rfl
  | revert t =>
      refine hstill (fun t edit h => by cases h) ?_ ?_ <;>
      · rw [uncounted]
        split <;> rfl
  | fork t v thread x =>
      cases thread with
      | true =>
          have hnew : objective (uncounted s (.fork t v true x)) v = s.content (s.task t).cred := by
            simp [objective, uncounted, System.setTask]
          exact hjoined hp.2.1 hnew (fun t edit h => by cases h) rfl rfl
      | false =>
          cases x with
          | none => exact hstill (fun t edit h => by cases h) rfl rfl
          | some d =>
              have hnew : objective (uncounted s (.fork t v false (some d))) v =
                  s.content (s.task t).cred := by
                simp [objective, uncounted, System.setTask, System.setContent]
              refine hjoined hp.2.1 hnew (fun t edit h => by cases h) rfl ?_
              simp [uncounted, System.setTask, System.setContent]
  | exit current t =>
      have hsum : ∑ x ∈ s.alive.erase t, single u (objective s x).uid +
          single u (objective s t).uid = ∑ x ∈ s.alive, single u (objective s x).uid :=
        Finset.sum_erase_add s.alive (fun x => single u (objective s x).uid) hp.2.1
      change countProcess s.processes (objective s t).uid (-1) u =
        (∑ x ∈ s.alive.erase t, single u (objective s x).uid : Nat)
      rw [countProcess_apply]
      omega
  | pin t objective => exact hstill (fun t edit h => by cases h) rfl rfl
  | unpin current d => exact hstill (fun t edit h => by cases h) rfl rfl

omit [DecidableEq Tid] in
/-- A copy in the making is out of the reach of other steps. -/
theorem Sound.draft_not_writable (h : Sound s) (hp : Possible s e) {u : Tid} (hu : u ∈ s.alive)
    (hc : c ∈ (s.task u).building) (howner : u ∉ e.owner) : ¬ Writable s e c := by
  rintro (hfree | ⟨t, ht, hb⟩)
  · exact hfree (h.live_of_building hu hc)
  · rw [h.distinct u hu t (mem_alive_of_owner hp ht) c hc hb] at howner
    exact howner ht

theorem Sound.unpublished_uncounted (h : Sound s) (hp : Possible s e) :
    ∀ u ∈ (uncounted s e).alive, ∀ c ∈ ((uncounted s e).task u).building,
      ¬ Published (uncounted s e) c := by
  intro u hu c hc hread
  rcases building_uncounted hp hu hc with rfl | ⟨hua, hcb, -, howner⟩
  · have hfresh := hp.2.2 c rfl
    rcases published_of_task hread (Finset.subset_insert u s.alive) rfl rfl with huses | hread
    · exact hfresh (h.live_of_published (.inl ⟨u, hp.1, huses⟩))
    · exact hfresh (h.live_of_published hread)
  · rcases published_uncounted hp hread with hread | hwritable
    · exact h.unpublished u hua c hcb hread
    · exact h.draft_not_writable hp hua hcb howner hwritable

theorem Sound.distinct_uncounted (h : Sound s) (hp : Possible s e) :
    ∀ t ∈ (uncounted s e).alive, ∀ u ∈ (uncounted s e).alive,
      ∀ c ∈ ((uncounted s e).task t).building, c ∈ ((uncounted s e).task u).building → t = u := by
  intro t ht u hu c hct hcu
  rcases building_uncounted hp ht hct with htprep | ⟨hta, htb, -, -⟩ <;>
    rcases building_uncounted hp hu hcu with huprep | ⟨hua, hub, -, -⟩
  · rw [htprep] at huprep
    cases huprep
    rfl
  · rw [htprep] at hp
    exact absurd (h.live_of_building hua hub) (hp.2.2 c rfl)
  · rw [huprep] at hp
    exact absurd (h.live_of_building hta htb) (hp.2.2 c rfl)
  · exact h.distinct t hta u hua c htb hub

theorem Sound.copied_uncounted (h : Sound s) (hp : Possible s e) :
    ∀ u ∈ (uncounted s e).alive, ∀ c ∈ ((uncounted s e).task u).building,
      (uncounted s e).content c = (uncounted s e).content ((uncounted s e).task u).cred := by
  intro u hu c hc
  rcases building_uncounted hp hu hc with rfl | ⟨hua, hcb, hcred, howner⟩
  · have hne : (s.task u).cred ≠ c := ne_of_mem_of_not_mem (h.live_cred hp.1) (hp.2.2 c rfl)
    simp [uncounted, System.setTask, System.setContent, hne]
  · have hread : Published s (s.task u).cred := .inl ⟨u, hua, .inr (.inl rfl)⟩
    rw [hcred, content_uncounted hp (h.draft_not_writable hp hua hcb howner),
      content_uncounted hp (h.not_writable hp hread), h.copied u hua c hcb]

theorem Sound.next (h : Sound s) (hp : Possible s e) : Sound (next s e) := by
  obtain ⟨creds, hstep, hcounted⟩ := h.counts hp
  rw [Creds.next, hstep, Option.getD_some]
  exact ⟨hcounted, h.stack_uncounted hp, h.unpublished_uncounted hp, h.distinct_uncounted hp,
    h.copied_uncounted hp, h.processes_uncounted hp, h.boot_uncounted hp⟩

end Lasts

/-! ### Runs -/

omit [DecidableEq Tid] in
theorem sound_booted (init : Tid) : Sound (booted init) := by
  have hrefs : ∀ c, refs (booted init) c = if c = initCred then 4 else 0 := by
    intro c
    by_cases hc : c = initCred
    · simp [refs, booted, share, single, hc]
    · simp [refs, booted, share, single, hc]
  constructor
  case counted =>
    intro c
    rw [hrefs c]
    by_cases hc : c = initCred <;> simp [booted, hc]
  case stack => exact fun t _ => rfl
  case unpublished => exact fun t _ c hc => by cases hc
  case distinct => exact fun t _ u _ c hc => by cases hc
  case copied => exact fun t _ c hc => by cases hc
  case processes =>
    intro u
    by_cases hu : u = rootUid
    · simp [tasksOf, booted, objective, rootCred, hu]
    · simp [tasksOf, booted, objective, rootCred, hu, Ne.symm hu]
  case boot => exact le_refl 2

/-- From boot on, whatever tasks and services do and in whatever order: no step runs into a `BUG_ON`
or uses a set that was freed, a set is there just as long as something refers to it, and each user's
processes are those of its tasks. -/
theorem sharing_sound (init : Tid) (events : List (Event Tid))
    (hevents : Run.EachStep next Possible (booted init) events) :
    Run.EachStep next (fun s e => step s e ≠ none) (booted init) events ∧
      Run.Always next (fun s =>
        (∀ c, (c ∈ s.creds.live → s.creds.ref c = refs s c) ∧
          (c ∈ s.creds.live ↔ Published s c ∨ ∃ t ∈ s.alive, c ∈ (s.task t).building)) ∧
        ∀ u, s.processes u = tasksOf s u) (booted init) events := by
  have halways : Run.Always next Sound (booted init) events :=
    Run.always_of_eachStep (fun s e h hp => h.next hp) (sound_booted init) hevents
  constructor
  · refine Run.eachStep_of_always_of_eachStep (fun s e h hp => ?_) halways hevents
    obtain ⟨creds, hstep, -⟩ := h.counts hp
    rw [hstep]
    exact Option.some_ne_none _
  · refine halways.mono fun s h => ⟨fun c => ?_, h.processes⟩
    exact ⟨(h.counted c).1, (h.counted c).2.trans refs_ne_zero⟩

/-- A server drops root, makes a thread and is pinned by a file. The first task works under a copy of
its own for a while and outlives the server. -/
def serverRun : List (Event Nat) :=
  [.fork 0 1 false (some 1), .prepare 1 (some 2), .commit 1 fun c => { c with uid := 1000 },
    .fork 1 2 true none, .pin 2 true, .prepare 0 (some 3), .keep 0 id, .override 0 3, .revert 0,
    .unpin 0 3, .exit 0 1]

theorem sharing_sound_serverRun :
    Run.EachStep next (fun s e => step s e ≠ none) (booted 0) serverRun ∧
      Run.Always next (fun s =>
        (∀ c, (c ∈ s.creds.live → s.creds.ref c = refs s c) ∧
          (c ∈ s.creds.live ↔ Published s c ∨ ∃ t ∈ s.alive, c ∈ (s.task t).building)) ∧
        ∀ u, s.processes u = tasksOf s u) (booted 0) serverRun :=
  sharing_sound 0 serverRun (by decide)

end LineageA1000.Creds
