import LineageA1000.Creds.Sharing

/-!
# As if each task had its own

To the tasks it makes no difference that credentials are shared. The system behaves as one in which
each task carries its own credentials as values, and where a call changes those of its own task and
a new task copies those its maker works under.
-/

namespace LineageA1000.Creds

open Caps

variable {Tid : Type*} [DecidableEq Tid]

/-! ### Credentials as values -/

/-- What a task is and what it works under, whether a call of it fills in new credentials, and what
it is to go back to. -/
structure Private where
  objective : Cred
  subjective : Cred
  filling : Bool
  saved : List Cred
  deriving DecidableEq

inductive Act (Tid : Type*) where
  | prepare (t : Tid)
  | commit (t : Tid) (edit : Cred → Cred)
  | release (t : Tid)
  | override (t : Tid) (c : Cred)
  | revert (t : Tid)
  | fork (t u : Tid)
  | exit (t : Tid)
  | rest

/-- The task's credentials after its own act. -/
def Private.apply (p : Private) : Act Tid → Private
  | .prepare _ => { p with filling := true }
  | .commit _ edit =>
      if p.filling then
        { p with objective := edit p.subjective, subjective := edit p.subjective, filling := false }
      else p
  | .release _ => { p with filling := false }
  | .override _ c => { p with subjective := c, saved := p.subjective :: p.saved }
  | .revert _ =>
      match p.saved with
      | [] => p
      | old :: rest => { p with subjective := old, saved := rest }
  | .fork _ _ | .exit _ | .rest => p

/-- The tasks there are, after an act of one of them. -/
def act (tasks : Tid → Option Private) (a : Act Tid) : Tid → Option Private :=
  match a with
  | .prepare t | .commit t _ | .release t | .override t _ | .revert t =>
      Function.update tasks t ((tasks t).map fun p => p.apply a)
  | .fork t u =>
      Function.update tasks u ((tasks t).map fun p => ⟨p.subjective, p.subjective, false, []⟩)
  | .exit t => Function.update tasks t none
  | .rest => tasks

/-! ### The view -/

def Task.values (content : CredId → Cred) (p : Task) : Private where
  objective := content p.realCred
  subjective := content p.cred
  filling := p.building.isSome
  saved := p.saved.map content

def view (s : System Tid) (t : Tid) : Option Private :=
  if t ∈ s.alive then some ((s.task t).values s.content) else none

/-- What the tasks see of an event. -/
def Event.act (s : System Tid) : Event Tid → Act Tid
  | .prepare t c => if c.isSome then .prepare t else .rest
  | .commit t edit => .commit t edit
  | .abort t => .release t
  | .keep t _ => .release t
  | .kernelCred _ _ _ _ => .rest
  | .override t c => .override t (s.content c)
  | .revert t => .revert t
  | .fork t u thread c => if thread || c.isSome then .fork t u else .rest
  | .exit _ t => .exit t
  | .pin _ _ => .rest
  | .unpin _ _ => .rest

section Step

variable {s : System Tid} {e : Event Tid} {t u : Tid}

theorem view_of_alive (ht : t ∈ s.alive) : view s t = some ((s.task t).values s.content) :=
  if_pos ht

theorem view_of_not_alive (ht : t ∉ s.alive) : view s t = none := if_neg ht

/-- The values of the sets a task uses are the same after a step. -/
theorem Sound.values_uncounted (h : Sound s) (hp : Possible s e) {p : Task}
    (hread : ∀ c, p.Uses c → Published s c) :
    p.values (uncounted s e).content = p.values s.content := by
  have hsame : ∀ c, p.Uses c → (uncounted s e).content c = s.content c :=
    fun c hc => content_uncounted hp (h.not_writable hp (hread c hc))
  have hsaved : p.saved.map (uncounted s e).content = p.saved.map s.content :=
    List.map_congr_left fun c hc => hsame c (.inr (.inr hc))
  rw [Task.values, Task.values, hsame _ (.inl rfl), hsame _ (.inr (.inl rfl)), hsaved]

theorem Sound.view_of_other (h : Sound s) (hp : Possible s e)
    (halive : u ∈ (uncounted s e).alive ↔ u ∈ s.alive)
    (htask : (uncounted s e).task u = s.task u) : view (uncounted s e) u = view s u := by
  by_cases hu : u ∈ s.alive
  · rw [view_of_alive hu, view_of_alive (halive.2 hu), htask,
      h.values_uncounted hp fun c hc => .inl ⟨u, hu, hc⟩]
  · rw [view_of_not_alive hu, view_of_not_alive fun hmem => hu (halive.1 hmem)]

/-- A step of one task changes the view of that task. -/
theorem Sound.view_of_task (h : Sound s) (hp : Possible s e) (ht : t ∈ s.alive) {p : Task}
    {f : Private → Private} (halive : (uncounted s e).alive = s.alive)
    (htask : (uncounted s e).task = Function.update s.task t p)
    (hvalues : p.values (uncounted s e).content = f ((s.task t).values s.content)) :
    view (uncounted s e) = Function.update (view s) t ((view s t).map f) := by
  funext u
  by_cases hu : u = t
  · subst hu
    rw [Function.update_self, view_of_alive ht, view_of_alive (halive ▸ ht), htask,
      Function.update_self, hvalues, Option.map_some]
  · rw [Function.update_of_ne hu, h.view_of_other hp (by rw [halive])]
    rw [htask, Function.update_of_ne hu]

/-- A new task has for its own what its maker works under. -/
theorem Sound.view_of_new (h : Sound s) (hp : Possible s e) (ht : t ∈ s.alive) {c : CredId}
    (halive : (uncounted s e).alive = insert u s.alive)
    (htask : (uncounted s e).task = Function.update s.task u ⟨c, c, none, []⟩)
    (hvalue : (uncounted s e).content c = s.content (s.task t).cred) :
    view (uncounted s e) = act (view s) (.fork t u) := by
  funext v
  by_cases hv : v = u
  · subst hv
    rw [act, Function.update_self, view_of_alive ht, view_of_alive (halive ▸ Finset.mem_insert_self ..),
      htask, Function.update_self, Option.map_some]
    simp only [Task.values, hvalue, Option.isSome_none, List.map_nil]
  · rw [act, Function.update_of_ne hv]
    refine h.view_of_other hp ?_ ?_
    · rw [halive, Finset.mem_insert, or_iff_right hv]
    · rw [htask, Function.update_of_ne hv]

theorem act_of_same {tasks : Tid → Option Private} {a : Act Tid}
    (h : ∀ p ∈ tasks t, p.apply a = p) :
    Function.update tasks t ((tasks t).map fun p => p.apply a) = tasks := by
  have hmap : (tasks t).map (fun p => p.apply a) = tasks t := by
    cases hp : tasks t with
    | none => rfl
    | some p => rw [Option.map_some, h p hp]
  rw [hmap, Function.update_eq_self]

omit [DecidableEq Tid] in
theorem Private.commit_idle {edit : Cred → Cred} {p : Private} (hp : p.filling = false) :
    p.apply (.commit t edit) = p := by
  rw [Private.apply, if_neg (Bool.eq_false_iff.1 hp)]

omit [DecidableEq Tid] in
theorem Private.release_idle {p : Private} (hp : p.filling = false) :
    p.apply (.release t) = p := by
  rw [Private.apply, ← hp]

/-- The refinement step. -/
theorem Sound.view_uncounted (h : Sound s) (hp : Possible s e) :
    view (uncounted s e) = act (view s) (e.act s) := by
  have hvalues : ∀ {t : Tid}, t ∈ s.alive → ∀ b : Option CredId,
      Task.values (uncounted s e).content { s.task t with building := b } =
        { (s.task t).values s.content with filling := b.isSome } := by
    intro t ht b
    have hsame := h.values_uncounted hp (p := { s.task t with building := b })
      fun c hc => .inl ⟨t, ht, hc⟩
    rw [hsame]
    rfl
  have hidle : ∀ {t : Tid} {a : Act Tid}, t ∈ s.alive → (s.task t).building = none →
      (∀ p : Private, p.filling = false → p.apply a = p) →
      Function.update (view s) t ((view s t).map fun p => p.apply a) = view s := by
    intro t a ht hb hsame
    apply act_of_same
    intro p hview
    rw [view_of_alive ht] at hview
    obtain rfl := Option.some.inj hview
    apply hsame
    rw [Task.values, hb]
    rfl
  cases e with
  | prepare t c =>
      cases c with
      | none => rfl
      | some d => exact h.view_of_task hp hp.1 rfl rfl (hvalues hp.1 (some d))
  | commit t edit =>
      cases hb : (s.task t).building with
      | none =>
          have hstill : uncounted s (.commit t edit) = s := by simp only [uncounted, hb]
          rw [hstill]
          exact (hidle hp.1 hb fun p => Private.commit_idle).symm
      | some d =>
          refine h.view_of_task hp hp.1 (p := ⟨d, d, none, (s.task t).saved⟩) ?_ ?_ ?_
          · simp only [uncounted, hb]
            rfl
          · simp only [uncounted, hb]
            rfl
          · have hnew : (uncounted s (.commit t edit)).content d = edit (s.content d) := by
              simp only [uncounted, hb, System.setTask, System.setContent, Function.update_self]
            have hfrom : s.content d = s.content (s.task t).cred := h.copied t hp.1 d hb
            have hfilling : ((s.task t).values s.content).filling = true := by
              rw [Task.values, hb]
              rfl
            refine Eq.trans ?_ (if_pos hfilling).symm
            simp only [Task.values, hnew, hfrom, hp.2, Option.isSome_none, List.map_nil]
  | abort t =>
      cases hb : (s.task t).building with
      | none =>
          have hstill : uncounted s (.abort t) = s := by simp only [uncounted, hb]
          rw [hstill]
          exact (hidle hp hb fun p => Private.release_idle).symm
      | some d =>
          refine h.view_of_task hp hp ?_ ?_ (hvalues hp none)
          · simp only [uncounted, hb]
            rfl
          · simp only [uncounted, hb]
            rfl
  | keep t edit =>
      cases hb : (s.task t).building with
      | none =>
          have hstill : uncounted s (.keep t edit) = s := by simp only [uncounted, hb]
          rw [hstill]
          exact (hidle hp hb fun p => Private.release_idle).symm
      | some d =>
          refine h.view_of_task hp hp ?_ ?_ (hvalues hp none)
          · simp only [uncounted, hb]
            rfl
          · simp only [uncounted, hb]
            rfl
  | kernelCred t daemon d edit =>
      funext u
      exact h.view_of_other hp Iff.rfl rfl
  | override t d => exact h.view_of_task hp hp.1 rfl rfl rfl
  | revert t =>
      cases hsaved : (s.task t).saved with
      | nil =>
          have hstill : uncounted s (.revert t) = s := by simp only [uncounted, hsaved]
          rw [hstill]
          refine (act_of_same fun p hview => ?_).symm
          rw [view_of_alive hp.1] at hview
          obtain rfl := Option.some.inj hview
          simp only [Event.act, Private.apply, Task.values, hsaved, List.map_nil]
      | cons old rest =>
          refine h.view_of_task hp hp.1 (p := { s.task t with cred := old, saved := rest }) ?_ ?_ ?_
          · simp only [uncounted, hsaved]
            rfl
          · simp only [uncounted, hsaved]
            rfl
          · have hstill : (uncounted s (.revert t)).content = s.content := by
              simp only [uncounted, hsaved]
              rfl
            rw [hstill]
            simp only [Event.act, Private.apply, Task.values, hsaved, List.map_cons]
  | fork t u thread c =>
      cases thread with
      | true => exact h.view_of_new hp hp.1 rfl rfl rfl
      | false =>
          cases c with
          | none => rfl
          | some d => exact h.view_of_new hp hp.1 rfl rfl (Function.update_self ..)
  | exit current t =>
      have hact : act (view s) (Event.act s (.exit current t)) =
          Function.update (view s) t none := rfl
      rw [hact]
      funext u
      by_cases hu : u = t
      · subst hu
        rw [Function.update_self, view_of_not_alive (Finset.notMem_erase u s.alive)]
      · rw [Function.update_of_ne hu]
        exact h.view_of_other hp (Finset.mem_erase.trans (and_iff_right hu)) rfl
  | pin t objective =>
      funext u
      exact h.view_of_other hp Iff.rfl rfl
  | unpin current d =>
      funext u
      exact h.view_of_other hp Iff.rfl rfl

theorem Sound.view_next (h : Sound s) (hp : Possible s e) :
    view (Creds.next s e) = act (view s) (e.act s) := by
  obtain ⟨creds, hstep, -⟩ := h.counts hp
  rw [← h.view_uncounted hp, Creds.next, hstep]
  rfl

end Step

/-! ### Runs -/

/-- From boot on, the tasks go through what they would go through if each had credentials of its
own, and nobody ever writes to a set that a task or anything else reads. -/
theorem sharing_unobservable (init : Tid) (events : List (Event Tid))
    (hevents : Run.EachStep next Possible (booted init) events) :
    view (Run.final next (booted init) events) =
        Run.final act (Function.update (fun _ => none) init (some ⟨rootCred, rootCred, false, []⟩))
          (Run.seen next (fun s e => e.act s) (booted init) events) ∧
      Run.EachStep next (fun s e => ∀ c, Published s c → (next s e).content c = s.content c)
        (booted init) events := by
  have hbooted : view (booted init) =
      Function.update (fun _ => none) init (some ⟨rootCred, rootCred, false, []⟩) := by
    funext t
    by_cases ht : t = init
    · subst ht
      rw [Function.update_self, view_of_alive (Finset.mem_singleton_self t)]
      rfl
    · rw [Function.update_of_ne ht, view_of_not_alive (Finset.notMem_singleton.2 ht)]
  constructor
  · rw [← hbooted]
    exact Run.final_simulates view _ act (fun s e h hp => ⟨h.next hp, h.view_next hp⟩)
      (sound_booted init) hevents
  · have halways := Run.always_of_eachStep (fun s e h hp => Sound.next h hp)
      (sound_booted init) hevents
    refine Run.eachStep_of_always_of_eachStep (fun s e h hp c hc => ?_) halways hevents
    obtain ⟨creds, hstep, -⟩ := h.counts hp
    rw [next, hstep]
    exact content_uncounted hp (h.not_writable hp hc)

theorem sharing_unobservable_serverRun :
    view (Run.final next (booted 0) serverRun) =
        Run.final act (Function.update (fun _ => none) 0 (some ⟨rootCred, rootCred, false, []⟩))
          (Run.seen next (fun s e => e.act s) (booted 0) serverRun) ∧
      Run.EachStep next (fun s e => ∀ c, Published s c → (next s e).content c = s.content c)
        (booted 0) serverRun :=
  sharing_unobservable 0 serverRun (by decide)

end LineageA1000.Creds
