import LineageA1000.Creds.Tasks

/-!
# Counting credentials

The references of tasks and others on a set, and the invariant under which every step counts them
right: it uses no set that was freed, runs into no `BUG_ON`, and does to the tasks what it would do
if nobody counted.
-/

namespace LineageA1000.Creds

open Caps RefCount

variable {Tid : Type*} [DecidableEq Tid]

/-! ### References -/

/-- A task's references on a set. -/
def share (p : Task) (c : CredId) : Nat :=
  single p.realCred c + single p.cred c + p.building.elim 0 (fun b => single b c) + p.saved.count c

def refs (s : System Tid) (c : CredId) : Nat := ∑ t ∈ s.alive, share (s.task t) c + s.elsewhere c

/-- The counts are those of the references of tasks and others, and of `extra` ones that a call has
on its hands. -/
def Owes (s : System Tid) (extra : CredId → Nat) : Prop :=
  Counted s.creds fun c => refs s c + extra c

omit [DecidableEq Tid] in
theorem share_le_refs {s : System Tid} {t : Tid} (ht : t ∈ s.alive) (c : CredId) :
    share (s.task t) c ≤ refs s c :=
  (share_le_sum_of_mem (share · c) s.task ht).trans (Nat.le_add_right ..)

theorem refs_setTask {s : System Tid} {t : Tid} (ht : t ∈ s.alive) (p : Task) (c : CredId) :
    refs (s.setTask t p) c + share (s.task t) c = refs s c + share p c := by
  have hsum := sum_update_of_mem (share · c) s.task ht p
  simp only [refs, System.setTask] at hsum ⊢
  omega

/-! ### Calls keep the counts -/

section Calls

variable {s : System Tid} {extra extra' : CredId → Nat} {c : CredId} {current t : Tid}

omit [DecidableEq Tid] in
theorem Owes.mem (h : Owes s extra) (hc : refs s c + extra c ≠ 0) : c ∈ s.creds.live :=
  Counted.mem h hc

omit [DecidableEq Tid] in
/-- The references change hands. -/
theorem Owes.handed {s' : System Tid} (h : Owes s extra) (hcreds : s'.creds = s.creds)
    (hrefs : ∀ x, refs s' x + extra' x = refs s x + extra x) : Owes s' extra' := by
  rw [Owes, hcreds]
  exact Counted.congr h hrefs

theorem Owes.setTask (h : Owes s extra) (ht : t ∈ s.alive) {p : Task}
    (hshare : ∀ x, share p x + extra' x = share (s.task t) x + extra x) :
    Owes (s.setTask t p) extra' := by
  have hcreds : (s.setTask t p).creds = s.creds := rfl
  apply h.handed hcreds
  intro x
  have hx := hshare x
  have hrefs := refs_setTask ht p x
  omega

omit [DecidableEq Tid] in
theorem Owes.getCred (h : Owes s extra) (hc : c ∈ s.creds.live)
    (hextra : ∀ x, extra' x = extra x + single c x) :
    getCred s c = some { s with creds := s.creds.get c } ∧
      Owes { s with creds := s.creds.get c } extra' := by
  refine ⟨if_pos hc, Counted.get h hc fun x => ?_⟩
  rw [hextra x, ← Nat.add_assoc]
  rfl

omit [DecidableEq Tid] in
/-- The reference given up is not one of the current task's own, so no `BUG_ON`. -/
theorem Owes.putCred (h : Owes s extra) (hcurrent : current ∈ s.alive)
    (hextra : ∀ x, extra' x + single c x = extra x) :
    putCred s current c = some { s with creds := s.creds.put c } ∧
      Owes { s with creds := s.creds.put c } extra' := by
  have hone : extra' c + 1 = extra c := by
    rw [← hextra c, single_self]
  have hlive : c ∈ s.creds.live := h.mem (by omega)
  have href : s.creds.ref c = refs s c + extra c := Counted.ref h hlive
  constructor
  · rw [Creds.putCred, if_neg (not_not.2 hlive), if_neg]
    rintro ⟨hlast, hown⟩
    have hshare := share_le_refs hcurrent c
    have hheld : share (s.task current) c ≠ 0 := by
      rw [share]
      rcases hown with hown | hown <;>
      · rw [hown, single_self]
        omega
    omega
  · refine Counted.put h fun x => ?_
    rw [← hextra x, ← Nat.add_assoc]
    rfl

omit [DecidableEq Tid] in
theorem Owes.init (h : Owes s extra) (hc : c ∉ s.creds.live)
    (hextra : ∀ x, extra' x = extra x + single c x) :
    Owes { s with creds := s.creds.init c } extra' := by
  refine Counted.init h hc fun x => ?_
  rw [hextra x, ← Nat.add_assoc]
  rfl

end Calls

/-! ### The invariant -/

/-- The task works under the set or will again. -/
def Task.Uses (p : Task) (c : CredId) : Prop := c = p.realCred ∨ c = p.cred ∨ c ∈ p.saved

/-- What was saved first is the objective set. -/
def Task.Stacked (p : Task) : Prop := p.saved.getLastD p.cred = p.realCred

def Published (s : System Tid) (c : CredId) : Prop :=
  (∃ t ∈ s.alive, (s.task t).Uses c) ∨ s.elsewhere c ≠ 0

/-- A task's objective credentials. -/
def objective (s : System Tid) (t : Tid) : Cred := s.content (s.task t).realCred

/-- How many tasks have the real uid `u`. -/
def tasksOf (s : System Tid) (u : Kuid) : Nat :=
  (s.alive.filter fun t => (objective s t).uid = u).card

/-- The counts are right, a copy being filled in is its call's alone and still reads as the
credentials the call works under, and the processes of each user are counted. -/
structure Sound (s : System Tid) : Prop where
  counted : Counted s.creds (refs s)
  stack : ∀ t ∈ s.alive, (s.task t).Stacked
  unpublished : ∀ t ∈ s.alive, ∀ c ∈ (s.task t).building, ¬ Published s c
  distinct : ∀ t ∈ s.alive, ∀ u ∈ s.alive, ∀ c ∈ (s.task t).building, c ∈ (s.task u).building →
    t = u
  copied : ∀ t ∈ s.alive, ∀ c ∈ (s.task t).building, s.content c = s.content (s.task t).cred
  processes : ∀ u, s.processes u = tasksOf s u
  boot : 2 ≤ s.elsewhere initCred

omit [DecidableEq Tid] in
theorem refs_ne_zero {s : System Tid} {c : CredId} :
    refs s c ≠ 0 ↔ Published s c ∨ ∃ t ∈ s.alive, c ∈ (s.task t).building := by
  have hshare : ∀ p : Task, share p c = 0 ↔
      ¬ p.Uses c ∧ c ∉ p.building := by
    intro p
    have hdraft : p.building.elim 0 (fun b => single b c) = 0 ↔ c ∉ p.building := by
      cases p.building <;> simp [single, eq_comm]
    rw [share, Task.Uses, Nat.add_eq_zero_iff, Nat.add_eq_zero_iff, Nat.add_eq_zero_iff, hdraft,
      List.count_eq_zero]
    simp only [single, ite_eq_right_iff, one_ne_zero, imp_false]
    tauto
  rw [refs, Ne, Nat.add_eq_zero_iff, Finset.sum_eq_zero_iff, Published]
  simp only [hshare]
  constructor
  · intro h
    by_contra hnone
    push Not at hnone
    apply h
    refine ⟨fun t ht => ⟨?_, hnone.2 t ht⟩, hnone.1.2⟩
    have hfree := hnone.1.1 t ht
    tauto
  · rintro ((⟨t, ht, hc⟩ | hc) | ⟨t, ht, hc⟩) h
    · exact (h.1 t ht).1 hc
    · exact hc h.2
    · exact (h.1 t ht).2 hc

/-! ### One step -/

/-- What a step does apart from counting. -/
def uncounted (s : System Tid) : Event Tid → System Tid
  | .prepare t c =>
      match c with
      | none => s
      | some c =>
          (s.setContent c (s.content (s.task t).cred)).setTask t
            { s.task t with building := some c }
  | .commit t edit =>
      match (s.task t).building with
      | none => s
      | some new =>
          let old := (s.task t).realCred
          let s := s.setContent new (edit (s.content new))
          { s.setTask t { s.task t with realCred := new, cred := new, building := none } with
            processes := if (s.content new).uid ≠ (s.content old).uid then
                countProcess (countProcess s.processes (s.content new).uid 1)
                  (s.content old).uid (-1)
              else s.processes }
  | .abort t =>
      match (s.task t).building with
      | none => s
      | some _ => s.setTask t { s.task t with building := none }
  | .keep t edit =>
      match (s.task t).building with
      | none => s
      | some new =>
          { (s.setContent new (edit (s.content new))).setTask t
              { s.task t with building := none } with
            elsewhere := Function.update s.elsewhere new (s.elsewhere new + 1) }
  | .kernelCred _ daemon c edit =>
      let old := daemon.elim initCred fun d => (s.task d).realCred
      { s.setContent c (edit (s.content old)) with
        elsewhere := Function.update s.elsewhere c (s.elsewhere c + 1) }
  | .override t c =>
      s.setTask t { s.task t with cred := c, saved := (s.task t).cred :: (s.task t).saved }
  | .revert t =>
      match (s.task t).saved with
      | [] => s
      | old :: rest => s.setTask t { s.task t with cred := old, saved := rest }
  | .fork t u thread c =>
      let shared := (s.task t).cred
      if thread then
        { s.setTask u ⟨shared, shared, none, []⟩ with
          processes := countProcess s.processes (s.content shared).uid 1
          alive := insert u s.alive }
      else
        match c with
        | none => s
        | some new =>
            let s := s.setContent new (s.content shared)
            { s.setTask u ⟨new, new, none, []⟩ with
              processes := countProcess s.processes (s.content new).uid 1
              alive := insert u s.alive }
  | .exit _ t =>
      { s with
        processes := countProcess s.processes (s.content (s.task t).realCred).uid (-1)
        alive := s.alive.erase t }
  | .pin t objective =>
      let c := if objective then (s.task t).realCred else (s.task t).cred
      { s with elsewhere := Function.update s.elsewhere c (s.elsewhere c + 1) }
  | .unpin _ c => { s with elsewhere := Function.update s.elsewhere c (s.elsewhere c - 1) }

namespace Sound

variable {s : System Tid} {t : Tid} {c : CredId}

omit [DecidableEq Tid] in
theorem owes (h : Sound s) : Owes s fun _ => 0 := h.counted

omit [DecidableEq Tid] in
theorem live_of_published (h : Sound s) (hc : Published s c) : c ∈ s.creds.live :=
  Counted.mem h.counted (refs_ne_zero.2 (.inl hc))

omit [DecidableEq Tid] in
theorem live_of_building (h : Sound s) (ht : t ∈ s.alive) (hc : c ∈ (s.task t).building) :
    c ∈ s.creds.live :=
  Counted.mem h.counted (refs_ne_zero.2 (.inr ⟨t, ht, hc⟩))

omit [DecidableEq Tid] in
theorem live_cred (h : Sound s) (ht : t ∈ s.alive) : (s.task t).cred ∈ s.creds.live :=
  h.live_of_published (.inl ⟨t, ht, .inr (.inl rfl)⟩)

omit [DecidableEq Tid] in
theorem live_realCred (h : Sound s) (ht : t ∈ s.alive) : (s.task t).realCred ∈ s.creds.live :=
  h.live_of_published (.inl ⟨t, ht, .inl rfl⟩)

omit [DecidableEq Tid] in
theorem cred_eq (h : Sound s) (ht : t ∈ s.alive) (hsaved : (s.task t).saved = []) :
    (s.task t).cred = (s.task t).realCred := by
  have hstack := h.stack t ht
  rwa [Task.Stacked, hsaved] at hstack

end Sound

/-- The step does what it would do if nobody counted, and counts right. -/
def Counts (s : System Tid) (e : Event Tid) : Prop :=
  ∃ creds, step s e = some { uncounted s e with creds := creds } ∧
    Counted creds (refs (uncounted s e))

theorem counts_prepare {s : System Tid} (h : Sound s) {t : Tid} {c : Option CredId}
    (hp : Possible s (.prepare t c)) : Counts s (.prepare t c) := by
  obtain ⟨ht, hnone, hfresh⟩ := hp
  cases c with
  | none => exact ⟨s.creds, rfl, h.counted⟩
  | some c =>
      refine ⟨s.creds.init c, ?_, ?_⟩
      · rw [step, prepareCreds, if_pos (h.live_cred ht)]
        rfl
      · have hinit : Owes { s with creds := s.creds.init c } (single c) :=
          h.owes.init (hfresh c rfl) fun x => (Nat.zero_add _).symm
        have hset : Owes (System.setTask { s with creds := s.creds.init c } t
            { s.task t with building := some c }) fun _ => 0 := by
          refine hinit.setTask ht fun x => ?_
          simp only [share, hnone, Option.elim_none, Option.elim_some]
          omega
        exact hset

theorem counts_commit {s : System Tid} (h : Sound s) {t : Tid} {edit : Cred → Cred}
    (hp : Possible s (.commit t edit)) : Counts s (.commit t edit) := by
  obtain ⟨ht, hsaved⟩ := hp
  cases hb : (s.task t).building with
  | none =>
      refine ⟨s.creds, ?_, ?_⟩
      · simp only [step, uncounted, hb]
      · simp only [uncounted, hb]
        exact h.counted
  | some new =>
      have hcred := h.cred_eq ht hsaved
      have hlive := h.live_of_building ht hb
      let old := (s.task t).realCred
      let filled := s.setContent new (edit (s.content new))
      let moved : System Tid := { filled with
        creds := filled.creds.get new
        processes := if (filled.content new).uid ≠ (filled.content old).uid then
            countProcess (countProcess s.processes (filled.content new).uid 1)
              (filled.content old).uid (-1)
          else s.processes }
      have hfilled : Owes filled fun _ => 0 := h.owes
      obtain ⟨hget, hgot⟩ := hfilled.getCred hlive fun x => (Nat.zero_add (single new x)).symm
      have hmoved : Owes moved (single new) := hgot
      have hset : Owes (moved.setTask t { s.task t with
          realCred := new, cred := new, building := none }) fun x => single old x + single old x := by
        refine hmoved.setTask ht fun x => ?_
        have hshare : share (moved.task t) x = single old x + single old x + single new x := by
          change share (s.task t) x = _
          simp only [share, hb, hcred, hsaved, Option.elim_some, List.count_nil, Nat.add_zero, old]
        rw [hshare]
        simp only [share, hsaved, Option.elim_none, List.count_nil]
        omega
      obtain ⟨hput, hput'⟩ := hset.putCred ht fun x => rfl
      obtain ⟨hlast, hdone⟩ := hput'.putCred ht fun x => Nat.zero_add _
      refine ⟨((s.creds.get new).put old).put old, ?_, ?_⟩
      · simp only [step, uncounted, hb]
        rw [commitCreds]
        refine (if_neg (not_not.2 hcred)).trans ?_
        exact Option.bind_eq_some_iff.2 ⟨_, hget, Option.bind_eq_some_iff.2 ⟨_, hput, hlast⟩⟩
      · simp only [uncounted, hb]
        exact hdone

theorem counts_abort {s : System Tid} (h : Sound s) {t : Tid} (ht : t ∈ s.alive) :
    Counts s (.abort t) := by
  cases hb : (s.task t).building with
  | none =>
      refine ⟨s.creds, ?_, ?_⟩
      · simp only [step, uncounted, hb]
      · simp only [uncounted, hb]
        exact h.counted
  | some new =>
      have hset : Owes (s.setTask t { s.task t with building := none }) (single new) := by
        refine h.owes.setTask ht fun x => ?_
        simp only [share, hb, Option.elim_none, Option.elim_some]
        omega
      obtain ⟨hput, hdone⟩ := hset.putCred ht fun x => Nat.zero_add _
      refine ⟨s.creds.put new, ?_, ?_⟩
      · simp only [step, uncounted, hb]
        exact hput
      · simp only [uncounted, hb]
        exact hdone

omit [DecidableEq Tid] in
/-- A reference becomes one of those held elsewhere. -/
theorem Owes.elsewhere {s : System Tid} {extra extra' : CredId → Nat} (h : Owes s extra) {c : CredId}
    (hextra : ∀ x, extra' x + single c x = extra x) :
    Owes { s with elsewhere := Function.update s.elsewhere c (s.elsewhere c + 1) } extra' := by
  refine h.handed rfl fun x => ?_
  have hx := hextra x
  by_cases hxc : x = c
  · subst hxc
    rw [single_self] at hx
    simp only [refs, Function.update_self]
    omega
  · rw [single_of_ne hxc] at hx
    simp only [refs, Function.update_of_ne hxc]
    omega

theorem counts_keep {s : System Tid} (h : Sound s) {t : Tid} {edit : Cred → Cred}
    (ht : t ∈ s.alive) : Counts s (.keep t edit) := by
  cases hb : (s.task t).building with
  | none =>
      refine ⟨s.creds, ?_, ?_⟩
      · simp only [step, uncounted, hb]
      · simp only [uncounted, hb]
        exact h.counted
  | some new =>
      let filled := s.setContent new (edit (s.content new))
      have hfilled : Owes filled fun _ => 0 := h.owes
      have hset : Owes (filled.setTask t { s.task t with building := none }) (single new) := by
        refine hfilled.setTask ht fun x => ?_
        have hshare : share (filled.task t) x = share (s.task t) x := rfl
        rw [hshare]
        simp only [share, hb, Option.elim_none, Option.elim_some]
        omega
      have hdone := hset.elsewhere fun x => Nat.zero_add (single new x)
      refine ⟨s.creds, ?_, ?_⟩
      · simp only [step, uncounted, hb]
        rfl
      · simp only [uncounted, hb]
        exact hdone

theorem counts_kernelCred {s : System Tid} (h : Sound s) {t : Tid} {daemon : Option Tid} {c : CredId}
    {edit : Cred → Cred} (hp : Possible s (.kernelCred t daemon c edit)) :
    Counts s (.kernelCred t daemon c edit) := by
  obtain ⟨ht, hdaemon, hfresh⟩ := hp
  let old := daemon.elim initCred fun d => (s.task d).realCred
  have hlive : old ∈ s.creds.live := by
    cases daemon with
    | none =>
        have hboot := h.boot
        have hinit : Published s initCred := .inr (by omega)
        exact h.live_of_published hinit
    | some d => exact h.live_realCred (hdaemon d rfl)
  obtain ⟨hget, hgot⟩ := h.owes.getCred hlive fun x => (Nat.zero_add (single old x)).symm
  let got : System Tid := { s with creds := s.creds.get old }
  have hinit : Owes { got with creds := got.creds.init c } fun x => single old x + single c x :=
    hgot.init hfresh fun x => rfl
  let made : System Tid := { got with
    creds := got.creds.init c
    content := Function.update got.content c (edit (got.content old)) }
  have hmade : Owes made fun x => single old x + single c x := hinit
  obtain ⟨hput, hput'⟩ := hmade.putCred ht fun x => Nat.add_comm (single c x) (single old x)
  have hdone := hput'.elsewhere fun x => Nat.zero_add (single c x)
  refine ⟨((s.creds.get old).init c).put old, ?_, hdone⟩
  rw [step, prepareKernelCred]
  exact Option.bind_eq_some_iff.2 ⟨_, hget, Option.bind_eq_some_iff.2 ⟨_, hput, rfl⟩⟩

theorem counts_override {s : System Tid} (h : Sound s) {t : Tid} {c : CredId}
    (hp : Possible s (.override t c)) : Counts s (.override t c) := by
  obtain ⟨ht, -, hheld⟩ := hp
  obtain ⟨hget, hgot⟩ :=
    h.owes.getCred (h.live_of_published (.inr hheld)) fun x => (Nat.zero_add (single c x)).symm
  refine ⟨s.creds.get c, ?_, ?_⟩
  · rw [step, overrideCreds]
    exact Option.bind_eq_some_iff.2 ⟨_, hget, rfl⟩
  · have hset : Owes (System.setTask { s with creds := s.creds.get c } t
        { s.task t with cred := c, saved := (s.task t).cred :: (s.task t).saved }) fun _ => 0 := by
      refine hgot.setTask ht fun x => ?_
      simp only [share, List.count_cons, single, beq_iff_eq, eq_comm (a := x)]
      omega
    exact hset

theorem counts_revert {s : System Tid} (h : Sound s) {t : Tid}
    (hp : Possible s (.revert t)) : Counts s (.revert t) := by
  obtain ⟨ht, -⟩ := hp
  cases hsaved : (s.task t).saved with
  | nil =>
      refine ⟨s.creds, ?_, ?_⟩
      · simp only [step, uncounted, hsaved]
      · simp only [uncounted, hsaved]
        exact h.counted
  | cons old rest =>
      have hset : Owes (s.setTask t { s.task t with cred := old, saved := rest })
          (single (s.task t).cred) := by
        refine h.owes.setTask ht fun x => ?_
        simp only [share, hsaved, List.count_cons, single, beq_iff_eq, eq_comm (a := x)]
        omega
      obtain ⟨hput, hdone⟩ := hset.putCred ht fun x => Nat.zero_add _
      refine ⟨s.creds.put (s.task t).cred, ?_, ?_⟩
      · simp only [step, uncounted, hsaved, revertCreds]
        exact hput
      · simp only [uncounted, hsaved]
        exact hdone

/-- A new task comes with its references. -/
theorem Owes.join {s s' : System Tid} {extra extra' : CredId → Nat} (h : Owes s extra) {u : Tid}
    (hu : u ∉ s.alive) {p : Task} (hcreds : s'.creds = s.creds) (halive : s'.alive = insert u s.alive)
    (htask : s'.task = Function.update s.task u p) (helse : s'.elsewhere = s.elsewhere)
    (hextra : ∀ x, share p x + extra' x = extra x) : Owes s' extra' := by
  refine h.handed hcreds fun x => ?_
  have hx := hextra x
  have hsum := sum_insert_update (share · x) s.task hu p
  simp only [refs, halive, htask, helse] at hsum ⊢
  omega

theorem counts_fork {s : System Tid} (h : Sound s) {t u : Tid} {thread : Bool} {c : Option CredId}
    (hp : Possible s (.fork t u thread c)) : Counts s (.fork t u thread c) := by
  obtain ⟨ht, hu, hfresh⟩ := hp
  let shared := (s.task t).cred
  have hlive : shared ∈ s.creds.live := h.live_cred ht
  cases thread with
  | true =>
      obtain ⟨hget, hgot⟩ := h.owes.getCred hlive fun x => (Nat.zero_add (single shared x)).symm
      obtain ⟨hagain, hgot'⟩ := hgot.getCred hlive fun x => rfl
      refine ⟨(s.creds.get shared).get shared, ?_, ?_⟩
      · exact Option.bind_eq_some_iff.2 ⟨_, hget, Option.bind_eq_some_iff.2 ⟨_, hagain, rfl⟩⟩
      · have hjoin : Owes { uncounted s (.fork t u true c) with
            creds := (s.creds.get shared).get shared } fun _ => 0 :=
          hgot'.join hu rfl rfl rfl rfl fun x => by
            simp only [share, Option.elim_none, List.count_nil, Nat.add_zero, shared]
        exact hjoin
  | false =>
      cases c with
      | none => exact ⟨s.creds, rfl, h.counted⟩
      | some new =>
          let made : System Tid := { s with
            creds := s.creds.init new
            content := Function.update s.content new (s.content shared) }
          have hmade : Owes made (single new) :=
            h.owes.init (hfresh new rfl) fun x => (Nat.zero_add _).symm
          have hnew : new ∈ made.creds.live := Finset.mem_insert_self ..
          obtain ⟨hget, hgot⟩ := hmade.getCred hnew fun x => rfl
          refine ⟨(s.creds.init new).get new, ?_, ?_⟩
          · have hmake : prepareCreds s t new = some made := if_pos hlive
            exact Option.bind_eq_some_iff.2 ⟨_, hmake, Option.bind_eq_some_iff.2 ⟨_, hget, rfl⟩⟩
          · have hjoin : Owes { uncounted s (.fork t u false (some new)) with
                creds := (s.creds.init new).get new } fun _ => 0 :=
              hgot.join hu rfl rfl rfl rfl fun x => by
                simp only [share, Option.elim_none, List.count_nil, Nat.add_zero]
            exact hjoin

theorem counts_exit {s : System Tid} (h : Sound s) {current t : Tid}
    (hp : Possible s (.exit current t)) : Counts s (.exit current t) := by
  obtain ⟨hcurrent, ht, hne, hnone, hsaved⟩ := hp
  have hleft : Owes (uncounted s (.exit current t))
      fun x => single (s.task t).cred x + single (s.task t).realCred x := by
    refine h.owes.handed rfl fun x => ?_
    have hsum := Finset.sum_erase_add s.alive (fun u => share (s.task u) x) ht
    have hshare : share (s.task t) x = single (s.task t).realCred x + single (s.task t).cred x := by
      simp only [share, hnone, hsaved, Option.elim_none, List.count_nil, Nat.add_zero]
    simp only [refs, uncounted] at hsum ⊢
    omega
  have hstays : current ∈ (uncounted s (.exit current t)).alive :=
    Finset.mem_erase.2 ⟨hne, hcurrent⟩
  obtain ⟨hput, hput'⟩ := hleft.putCred hstays fun x => rfl
  obtain ⟨hlast, hdone⟩ := hput'.putCred hstays fun x => Nat.zero_add _
  refine ⟨(s.creds.put (s.task t).realCred).put (s.task t).cred, ?_, hdone⟩
  rw [step, exitCreds]
  exact Option.bind_eq_some_iff.2 ⟨_, hput, hlast⟩

theorem counts_pin {s : System Tid} (h : Sound s) {t : Tid} {objective : Bool} (ht : t ∈ s.alive) :
    Counts s (.pin t objective) := by
  let c := if objective then (s.task t).realCred else (s.task t).cred
  have hlive : c ∈ s.creds.live := by
    cases objective with
    | true => exact h.live_realCred ht
    | false => exact h.live_cred ht
  obtain ⟨hget, hgot⟩ := h.owes.getCred hlive fun x => (Nat.zero_add (single c x)).symm
  refine ⟨s.creds.get c, ?_, hgot.elsewhere fun x => Nat.zero_add (single c x)⟩
  exact Option.map_eq_some_iff.2 ⟨_, hget, rfl⟩

theorem counts_unpin {s : System Tid} (h : Sound s) {current : Tid} {c : CredId}
    (hp : Possible s (.unpin current c)) : Counts s (.unpin current c) := by
  obtain ⟨hcurrent, hheld⟩ := hp
  have hpos : 0 < s.elsewhere c := by omega
  have hless : Owes (uncounted s (.unpin current c)) (single c) := by
    refine h.owes.handed rfl fun x => ?_
    by_cases hx : x = c
    · subst hx
      simp only [refs, uncounted, Function.update_self, single_self]
      omega
    · simp only [refs, uncounted, Function.update_of_ne hx, single_of_ne hx]
  obtain ⟨hput, hdone⟩ := hless.putCred hcurrent fun x => Nat.zero_add _
  exact ⟨s.creds.put c, hput, hdone⟩

/-- No possible step goes wrong. -/
theorem Sound.counts {s : System Tid} (h : Sound s) {e : Event Tid} (hp : Possible s e) :
    Counts s e := by
  cases e with
  | prepare t c => exact counts_prepare h hp
  | commit t edit => exact counts_commit h hp
  | abort t => exact counts_abort h hp
  | keep t edit => exact counts_keep h hp
  | kernelCred t daemon c edit => exact counts_kernelCred h hp
  | override t c => exact counts_override h hp
  | revert t => exact counts_revert h hp
  | fork t u thread c => exact counts_fork h hp
  | exit current t => exact counts_exit h hp
  | pin t objective => exact counts_pin h hp
  | unpin current c => exact counts_unpin h hp

end LineageA1000.Creds
