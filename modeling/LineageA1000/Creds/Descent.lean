import LineageA1000.Caps.Confine
import LineageA1000.Creds.Private

/-!
# The descendants of a task

What the capability module never gives back to a task, it never gives back to the tasks that
descend from it, whatever other tasks do to their own credentials in between.
-/

namespace LineageA1000.Creds

open Caps

variable {Tid : Type*} [DecidableEq Tid]

/-- The tasks that are there of a line. -/
def descend (line : Finset Tid) : Event Tid → Finset Tid
  | .fork t u thread c => if t ∈ line ∧ (thread || c.isSome) then insert u line else line
  | .exit _ t => line.erase t
  | _ => line

def nextOfLine (x : System Tid × Finset Tid) (e : Event Tid) : System Tid × Finset Tid :=
  (next x.1 e, descend x.2 e)

/-- The tasks of the line commit what a call of the capability module makes of their credentials, and
make tasks only while they work under their own. -/
def ByCalls (x : System Tid × Finset Tid) (e : Event Tid) : Prop :=
  Possible x.1 e ∧
    match e with
    | .commit t edit => t ∈ x.2 → ∃ call : CredStep, edit = fun c => call.apply c
    | .fork t _ _ _ => t ∈ x.2 → (x.1.task t).saved = []
    | _ => True

/-- The line is one of living tasks, and each has the property. -/
structure Line (P : Cred → Prop) (x : System Tid × Finset Tid) : Prop where
  sound : Sound x.1
  alive : x.2 ⊆ x.1.alive
  keeps : ∀ t ∈ x.2, P (objective x.1 t)

section Step

variable {P : Cred → Prop} {s : System Tid} {line : Finset Tid} {e : Event Tid} {t u : Tid}

theorem mem_descend (hu : u ∈ descend line e) :
    u ∈ line ∧ (∀ current, e ≠ .exit current u) ∨
      ∃ t thread c, e = .fork t u thread c ∧ t ∈ line ∧ (thread || c.isSome) = true := by
  cases e with
  | fork t v thread c =>
      rw [descend] at hu
      split at hu
      · rename_i hfork
        rcases Finset.mem_insert.1 hu with rfl | hu
        · exact .inr ⟨t, thread, c, rfl, hfork⟩
        · exact .inl ⟨hu, fun current h => by cases h⟩
      · exact .inl ⟨hu, fun current h => by cases h⟩
  | exit current t =>
      obtain ⟨hne, hu⟩ := Finset.mem_erase.1 hu
      refine .inl ⟨hu, fun current' h => ?_⟩
      cases h
      exact hne rfl
  | _ => exact .inl ⟨hu, fun current h => by cases h⟩

/-- A new task is what its maker works under. -/
theorem Sound.objective_fork (h : Sound s) {thread : Bool} {c : Option CredId}
    (hp : Possible s (.fork t u thread c)) (hmade : (thread || c.isSome) = true) :
    u ∈ (uncounted s (.fork t u thread c)).alive ∧
      objective (uncounted s (.fork t u thread c)) u = s.content (s.task t).cred := by
  have hview := congrFun (h.view_uncounted hp) u
  rw [Event.act, if_pos hmade, act, Function.update_self, view_of_alive hp.1, Option.map_some] at hview
  by_cases hu : u ∈ (uncounted s (.fork t u thread c)).alive
  · rw [view_of_alive hu] at hview
    exact ⟨hu, congrArg Private.objective (Option.some.inj hview)⟩
  · rw [view_of_not_alive hu] at hview
    cases hview

theorem mem_alive_uncounted (hu : u ∈ s.alive) (hexit : ∀ current, e ≠ .exit current u) :
    u ∈ (uncounted s e).alive := by
  cases e with
  | prepare t c => cases c <;> exact hu
  | commit t edit =>
      rw [uncounted]
      split <;> exact hu
  | abort t =>
      rw [uncounted]
      split <;> exact hu
  | keep t edit =>
      rw [uncounted]
      split <;> exact hu
  | revert t =>
      rw [uncounted]
      split <;> exact hu
  | fork t v thread c =>
      cases thread with
      | true => exact Finset.mem_insert_of_mem hu
      | false =>
          cases c with
          | none => exact hu
          | some d => exact Finset.mem_insert_of_mem hu
  | exit current t =>
      refine Finset.mem_erase.2 ⟨?_, hu⟩
      rintro rfl
      exact hexit current rfl
  | _ => exact hu

/-- What a task of the line is after a step is what it was, or what a call made of it. -/
theorem Line.keeps_old (hcall : ∀ c (call : CredStep), P c → P (call.apply c))
    (h : Line P (s, line)) (he : ByCalls (s, line) e) (hu : u ∈ line) :
    P (objective (uncounted s e) u) := by
  obtain ⟨hp, hbycalls⟩ := he
  have hkept := h.keeps u hu
  have halive := h.alive hu
  by_cases hcommit : ∃ edit, e = .commit u edit
  · obtain ⟨edit, rfl⟩ := hcommit
    obtain ⟨call, rfl⟩ := hbycalls hu
    cases hb : (s.task u).building with
    | none =>
        have hstill : uncounted s (.commit u fun c => call.apply c) = s := by
          simp only [uncounted, hb]
        rw [hstill]
        exact hkept
    | some d =>
        rw [objective_commit hb, h.sound.copied u halive d hb, h.sound.cred_eq halive hp.2]
        exact hcall _ call hkept
  · rw [h.sound.objective_uncounted hp halive fun edit heq => hcommit ⟨edit, heq⟩]
    exact hkept

theorem Line.next (hcall : ∀ c (call : CredStep), P c → P (call.apply c))
    (h : Line P (s, line)) (he : ByCalls (s, line) e) : Line P (nextOfLine (s, line) e) := by
  obtain ⟨creds, hstep, -⟩ := h.sound.counts he.1
  have hnext : Creds.next s e = { uncounted s e with creds := creds } := by
    rw [Creds.next, hstep]
    rfl
  have hline : ∀ u ∈ descend line e,
      u ∈ (uncounted s e).alive ∧ P (objective (uncounted s e) u) := by
    intro u hu
    rcases mem_descend hu with ⟨hold, hexit⟩ | ⟨t, thread, c, rfl, ht, hmade⟩
    · exact ⟨mem_alive_uncounted (h.alive hold) hexit, h.keeps_old hcall he hold⟩
    · obtain ⟨hu, hnew⟩ := h.sound.objective_fork he.1 hmade
      refine ⟨hu, ?_⟩
      rw [hnew, h.sound.cred_eq (h.alive ht) (he.2 ht)]
      exact h.keeps t ht
  refine ⟨h.sound.next he.1, fun u hu => ?_, fun u hu => ?_⟩
  · change u ∈ (Creds.next s e).alive
    rw [hnext]
    exact (hline u hu).1
  · change P (objective (Creds.next s e) u)
    rw [hnext]
    exact (hline u hu).2

end Step

/-- Take any task at any time, and let it and its descendants change their credentials by calls and
executed files only. None of them ever has a capability that the task could not have reached, nor
undoes a securebit lock that the task was under. Other tasks and services do what they like. -/
theorem descendants_confined (init : Tid) (before events : List (Event Tid)) (t : Tid)
    (hbefore : Run.EachStep next Possible (booted init) before)
    (ht : t ∈ (Run.final next (booted init) before).alive)
    (hevents : Run.EachStep nextOfLine ByCalls (Run.final next (booted init) before, {t})
      events) :
    Run.Always nextOfLine (fun x => ∀ u ∈ x.2,
        reach (objective x.1 u) ⊆
            reach (objective (Run.final next (booted init) before) t) ∧
          LocksHold (objective (Run.final next (booted init) before) t) (objective x.1 u))
      (Run.final next (booted init) before, {t}) events := by
  generalize hs : Run.final next (booted init) before = s at ht hevents
  have hsound : Sound s := by
    rw [← hs]
    exact (Run.always_of_eachStep (fun s e h hp => Sound.next h hp) (sound_booted init)
      hbefore).final
  let P : Cred → Prop := fun c => reach c ⊆ reach (objective s t) ∧ LocksHold (objective s t) c
  have hcall : ∀ c (call : CredStep), P c → P (call.apply c) := by
    rintro c call ⟨hreach, hlocks⟩
    exact ⟨(apply_reach c call).1.trans hreach, hlocks.trans (locksHold_apply c call)⟩
  have hstart : Line P (s, {t}) := by
    refine ⟨hsound, Finset.singleton_subset_iff.2 ht, fun u hu => ?_⟩
    obtain rfl := Finset.mem_singleton.1 hu
    exact ⟨subset_rfl, .refl _⟩
  have halways : Run.Always nextOfLine (Line P) (s, {t}) events :=
    Run.always_of_eachStep (fun x e h he => h.next hcall he) hstart hevents
  exact halways.mono fun x h => h.keeps

/-- A daemon drops root and makes a thread. -/
def daemonLine : List (Event Nat) :=
  [.prepare 1 (some 2), .commit 1 fun c => CredStep.apply c ⟨.quiet, .setuid 1000⟩,
    .fork 1 2 true none]

theorem descendants_confined_daemonLine :
    Run.Always nextOfLine (fun x => ∀ u ∈ x.2,
        reach (objective x.1 u) ⊆
            reach (objective (Run.final next (booted 0) [.fork 0 1 false (some 1)]) 1) ∧
          LocksHold (objective (Run.final next (booted 0) [.fork 0 1 false (some 1)]) 1)
            (objective x.1 u))
      (Run.final next (booted 0) [.fork 0 1 false (some 1)], {1}) daemonLine := by
  refine descendants_confined 0 [.fork 0 1 false (some 1)] daemonLine 1 (by decide) (by decide) ?_
  refine ⟨⟨by decide, trivial⟩, ⟨by decide, ?_⟩, ⟨by decide, ?_⟩, trivial⟩
  · exact fun _ => ⟨_, rfl⟩
  · exact fun _ => by decide

end LineageA1000.Creds
