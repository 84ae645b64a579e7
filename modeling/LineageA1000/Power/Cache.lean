import LineageA1000.Power.Hal

/-!
# The remembered limits

`sysfs_write_int` reports no failure, so `apply_locked` remembers what it wanted to write. It is the
remembered limits that decide what the next step writes and in which order, so one write that does
not arrive is never made up for, and a later raise of the lower limit can meet an upper limit that
the kernel never got. The module follows the writes one by one and finds that the remembered limits
are the kernel's own exactly in the runs whose writes all arrive.
-/

namespace LineageA1000.Power

/-! ### The writes of a call -/

inductive Limit where
  | min
  | max
  deriving DecidableEq

/-- One call of `sysfs_write_int`. -/
structure Write where
  limit : Limit
  value : Int
  ok : Bool
  deriving DecidableEq

/-- The policy that a write asks for. -/
def Write.asked (p : Policy) (w : Write) : Policy :=
  match w.limit with
  | .min => { p with scalingMin := w.value }
  | .max => { p with scalingMax := w.value }

/-- The policy that a write leaves. -/
def Write.left (p : Policy) (w : Write) : Policy := if w.ok then w.asked p else p

/-- The writes of `apply_locked`, in order. -/
def applyWrites (w : Writes) (p : A1000Power) : List Write :=
  (if wantMax p > p.curMax then [⟨.max, wantMax p, w.raiseMax⟩] else []) ++
    (if wantMin p ≠ p.curMin then [⟨.min, wantMin p, w.moveMin⟩] else []) ++
    if wantMax p < p.curMax then [⟨.max, wantMax p, w.lowerMax⟩] else []

/-- The state in which `boost` enters `apply_locked`. -/
def boosted (freq : Int) (durationMs now : Nat) (p : A1000Power) : A1000Power :=
  { p with
    boostFreq := if freq > p.boostFreq then freq else p.boostFreq
    boostUntilMs := if now + durationMs > p.boostUntilMs then now + durationMs else p.boostUntilMs }

/-- The state in which a call enters `apply_locked`, if it does. -/
def applyInput (p : A1000Power) : Operation → Option A1000Power
  | .init => none
  | .powerHint .interaction now => some (boosted FREQ_INTERACTIVE BOOST_MS_INTERACTION now p)
  | .powerHint .launch now => some (boosted FREQ_LAUNCH BOOST_MS_LAUNCH now p)
  | .powerHint (.lowPower data) _ => some { p with lowPower := data }
  | .powerHint .vsync _ | .powerHint (.other _) _ => none
  | .setInteractive on =>
      some { p with
        screenOn := on
        boostFreq := if on then p.boostFreq else 0
        boostUntilMs := if on then p.boostUntilMs else 0 }
  | .boostThread now =>
      if p.boostFreq = 0 then none
      else if now ≥ p.boostUntilMs then some { p with boostFreq := 0 }
      else none

/-- The writes of a call; `none` where it neither applies the inputs nor sets the limits up. -/
def issued (p : A1000Power) (c : Call) : Option (List Write) :=
  match applyInput p c.op with
  | some p' => some (applyWrites c.writes p')
  | none =>
      if c.op = .init ∧ p.inited = false then
        some [⟨.max, FREQ_MAX, c.writes.raiseMax⟩, ⟨.min, FREQ_MIN, c.writes.moveMin⟩]
      else none

/-- The policy and the log after some writes. -/
def carryOut (start : Policy × List Policy) (ws : List Write) : Policy × List Policy :=
  ws.foldl (fun st w => (w.left st.1, w.left st.1 :: st.2)) start

/-! ### What a call does -/

theorem step_of_applyInput {s : System} {c : Call} {p : A1000Power}
    (hinput : applyInput s.pwr c.op = some p) :
    step s c = applyLocked c.writes { s with pwr := p } ∧
      p.curMin = s.pwr.curMin ∧ p.curMax = s.pwr.curMax := by
  obtain ⟨op, w⟩ := c
  cases op with
  | init => cases hinput
  | powerHint hint now =>
      cases hint with
      | interaction | launch | lowPower data =>
          cases hinput
          exact ⟨rfl, rfl, rfl⟩
      | vsync | other hint => cases hinput
  | setInteractive on =>
      cases hinput
      exact ⟨rfl, rfl, rfl⟩
  | boostThread now =>
      dsimp only [applyInput] at hinput
      split at hinput
      · cases hinput
      rename_i hboost
      split at hinput
      · rename_i hdue
        cases hinput
        refine ⟨?_, rfl, rfl⟩
        show boostThreadPass w now s = _
        rw [boostThreadPass, if_neg hboost, if_pos hdue]
      · cases hinput

theorem step_of_init {s : System} {c : Call} (hop : c.op = .init) (hinited : s.pwr.inited = false) :
    step s c = { writeMin c.writes.moveMin FREQ_MIN (writeMax c.writes.raiseMax FREQ_MAX s) with
      pwr := { s.pwr with curMin := FREQ_MIN, curMax := FREQ_MAX, inited := true } } := by
  obtain ⟨op, w⟩ := c
  dsimp only at hop
  subst hop
  show a1000PowerInit w s = _
  rw [a1000PowerInit, hinited]
  rfl

/-- A call without writes leaves everything as it is. -/
theorem step_of_issued_eq_none {s : System} {c : Call} (hnone : issued s.pwr c = none) :
    step s c = s := by
  obtain ⟨op, w⟩ := c
  cases op with
  | init =>
      show a1000PowerInit w s = s
      rw [a1000PowerInit]
      split
      · rfl
      · rename_i hinited
        rw [issued] at hnone
        simp [applyInput, hinited] at hnone
  | powerHint hint now =>
      cases hint with
      | interaction | launch | lowPower data => cases hnone
      | vsync | other hint => rfl
  | setInteractive on => cases hnone
  | boostThread now =>
      show boostThreadPass w now s = s
      rw [boostThreadPass]
      split
      · rfl
      rename_i hboost
      split
      · rename_i hdue
        simp [issued, applyInput, hboost, hdue] at hnone
      · rfl

theorem carryOut_append (start : Policy × List Policy) (ws ws' : List Write) :
    carryOut start (ws ++ ws') = carryOut (carryOut start ws) ws' := List.foldl_append

theorem raiseMax_spec_any (ok : Bool) (max : Int) (s : System) :
    (raiseMax ok max s).pwr = { s.pwr with curMax := Max.max max s.pwr.curMax } ∧
      ((raiseMax ok max s).policy, (raiseMax ok max s).log) =
        carryOut (s.policy, s.log) (if max > s.pwr.curMax then [⟨.max, max, ok⟩] else []) := by
  rw [raiseMax]
  split
  · rename_i hgrow
    rw [max_eq_left hgrow.le]
    exact ⟨rfl, rfl⟩
  · rename_i hgrow
    rw [max_eq_right (not_lt.1 hgrow)]
    exact ⟨rfl, rfl⟩

theorem moveMin_spec_any (ok : Bool) (min : Int) (s : System) :
    (moveMin ok min s).pwr = { s.pwr with curMin := min } ∧
      ((moveMin ok min s).policy, (moveMin ok min s).log) =
        carryOut (s.policy, s.log) (if min ≠ s.pwr.curMin then [⟨.min, min, ok⟩] else []) := by
  rw [moveMin]
  split
  · exact ⟨rfl, rfl⟩
  · rename_i hsame
    rw [not_not.1 hsame]
    exact ⟨rfl, rfl⟩

theorem lowerMax_spec_any (ok : Bool) {max : Int} {s : System} (hmax : max ≤ s.pwr.curMax) :
    (lowerMax ok max s).pwr = { s.pwr with curMax := max } ∧
      ((lowerMax ok max s).policy, (lowerMax ok max s).log) =
        carryOut (s.policy, s.log) (if max < s.pwr.curMax then [⟨.max, max, ok⟩] else []) := by
  rw [lowerMax]
  split
  · exact ⟨rfl, rfl⟩
  · rename_i hsame
    rw [le_antisymm hmax (not_lt.1 hsame)]
    exact ⟨rfl, rfl⟩

/-- Whatever becomes of its writes, `apply_locked` remembers the limits it wanted. -/
theorem applyLocked_spec_any (w : Writes) (s : System) :
    (applyLocked w s).pwr = { s.pwr with curMin := wantMin s.pwr, curMax := wantMax s.pwr } ∧
      ((applyLocked w s).policy, (applyLocked w s).log) =
        carryOut (s.policy, s.log) (applyWrites w s.pwr) := by
  obtain ⟨hraisedPwr, hraised⟩ := raiseMax_spec_any w.raiseMax (wantMax s.pwr) s
  obtain ⟨hmovedPwr, hmoved⟩ := moveMin_spec_any w.moveMin (wantMin s.pwr)
    (raiseMax w.raiseMax (wantMax s.pwr) s)
  rw [hraisedPwr] at hmovedPwr hmoved
  have hroom : wantMax s.pwr ≤ (moveMin w.moveMin (wantMin s.pwr)
      (raiseMax w.raiseMax (wantMax s.pwr) s)).pwr.curMax := by
    rw [hmovedPwr]
    exact le_max_left _ _
  obtain ⟨hloweredPwr, hlowered⟩ := lowerMax_spec_any w.lowerMax hroom
  rw [hmovedPwr] at hloweredPwr hlowered
  refine ⟨hloweredPwr, hlowered.trans ?_⟩
  have hlower : wantMax s.pwr < max (wantMax s.pwr) s.pwr.curMax ↔
      wantMax s.pwr < s.pwr.curMax := by
    omega
  dsimp only at hmoved ⊢
  rw [hmoved, hraised, ← carryOut_append, ← carryOut_append, applyWrites, ← List.append_assoc]
  simp only [hlower]

/-- The writes of a call are all that happens to the policy. -/
theorem step_carryOut (s : System) (c : Call) :
    ((step s c).policy, (step s c).log) =
      carryOut (s.policy, s.log) ((issued s.pwr c).getD []) := by
  cases hinput : applyInput s.pwr c.op with
  | some p =>
      rw [(step_of_applyInput hinput).1, (applyLocked_spec_any _ _).2, issued, hinput]
      rfl
  | none =>
      by_cases hinit : c.op = .init ∧ s.pwr.inited = false
      · rw [step_of_init hinit.1 hinit.2, issued, hinput, if_pos hinit]
        rfl
      · have hnone : issued s.pwr c = none := by
          rw [issued, hinput]
          exact if_neg hinit
        rw [step_of_issued_eq_none hnone, hnone]
        rfl

/-! ### What has to hold -/

/-- The remembered limits are the kernel's. -/
def Synced (s : System) : Prop :=
  s.pwr.curMin = s.policy.scalingMin ∧ s.pwr.curMax = s.policy.scalingMax

instance (s : System) : Decidable (Synced s) := inferInstanceAs (Decidable (_ ∧ _))

/-- No write asks for a lower limit above the upper one the kernel holds by then. -/
def Orderly : Policy → List Write → Prop
  | _, [] => True
  | p, w :: ws => (w.asked p).Legal ∧ Orderly (w.left p) ws

instance decidableOrderly : ∀ (p : Policy) (ws : List Write), Decidable (Orderly p ws)
  | _, [] => instDecidableTrue
  | p, w :: ws => @instDecidableAnd _ _ _ (decidableOrderly (w.left p) ws)

/-- Every limit in which the kernel differs from the target is written. -/
def Retries (p target : Policy) (ws : List Write) : Prop :=
  (target.scalingMin ≠ p.scalingMin → ∃ w ∈ ws, w.limit = .min ∧ w.value = target.scalingMin) ∧
    (target.scalingMax ≠ p.scalingMax → ∃ w ∈ ws, w.limit = .max ∧ w.value = target.scalingMax)

instance (p target : Policy) (ws : List Write) : Decidable (Retries p target ws) :=
  inferInstanceAs (Decidable ((_ → _) ∧ (_ → _)))

/-- Every write leaves what it asks for: it succeeds, or the kernel holds the value already. -/
def Lands : Policy → List Write → Prop
  | _, [] => True
  | p, w :: ws => w.left p = w.asked p ∧ Lands (w.left p) ws

instance decidableLands : ∀ (p : Policy) (ws : List Write), Decidable (Lands p ws)
  | _, [] => instDecidableTrue
  | p, w :: ws => @instDecidableAnd _ _ _ (decidableLands (w.left p) ws)

/-- The HAL with whether it has applied its inputs yet. -/
structure Session where
  sys : System
  applied : Bool
  deriving DecidableEq

def Session.step (h : Session) (c : Call) : Session :=
  ⟨Power.step h.sys c, h.applied || (issued h.sys.pwr c).isSome⟩

/-- The HAL as it is loaded, over any policy. -/
def loaded (policy : Policy) : Session := ⟨⟨gPwr, policy, []⟩, false⟩

/-- The limits the HAL remembers after a call. -/
def target (s : System) (c : Call) : Policy := ⟨(step s c).pwr.curMin, (step s c).pwr.curMax⟩

/-- A call that writes leaves the kernel's limits remembered; once the inputs have been applied, it
writes every limit the kernel lacks and inverts none. -/
def Honest (h : Session) (c : Call) : Prop :=
  ∀ ws ∈ issued h.sys.pwr c, Synced (step h.sys c) ∧
    (h.applied = true → Orderly h.sys.policy ws ∧ Retries h.sys.policy (target h.sys c) ws)

instance (h : Session) (c : Call) : Decidable (Honest h c) := Option.decidableForallMem _

/-- Every write of the call arrives. -/
def WritesLand (h : Session) (c : Call) : Prop :=
  ∀ ws ∈ issued h.sys.pwr c, Lands h.sys.policy ws

instance (h : Session) (c : Call) : Decidable (WritesLand h c) := Option.decidableForallMem _

/-- What is known before a call: nothing is remembered yet, or the kernel's legal limits are. -/
def Known (h : Session) : Prop :=
  if h.applied then Synced h.sys ∧ h.sys.policy.Legal ∧ h.sys.policy.scalingMax ≤ FREQ_MAX
  else h.sys.pwr.curMin = -1 ∧ h.sys.pwr.curMax = -1

theorem wantMax_le (p : A1000Power) : wantMax p ≤ FREQ_MAX ∧ 0 < wantMax p := by
  rw [wantMax_eq, ceiling]
  split <;> decide

theorem wantMin_pos (p : A1000Power) : 0 < wantMin p := by
  have hmax := (wantMax_le p).2
  rw [wantMin_eq]
  apply lt_min _ hmax
  split
  · assumption
  · decide

theorem carryOut_fst (start : Policy × List Policy) (ws : List Write) :
    (carryOut start ws).1 = ws.foldl Write.left start.1 := by
  induction ws generalizing start with
  | nil => rfl
  | cons w ws ih => exact ih _

theorem step_policy (s : System) (c : Call) {ws : List Write} (hws : issued s.pwr c = some ws) :
    (step s c).policy = ws.foldl Write.left s.policy := by
  have hpolicy := congrArg Prod.fst (step_carryOut s c)
  rw [hws, carryOut_fst] at hpolicy
  exact hpolicy

/-! ### One call -/

theorem Write.left_min (p : Policy) (value : Int) (ok : Bool) :
    Write.left p ⟨.min, value, ok⟩ = ⟨if ok then value else p.scalingMin, p.scalingMax⟩ := by
  cases ok <;> rfl

theorem Write.left_max (p : Policy) (value : Int) (ok : Bool) :
    Write.left p ⟨.max, value, ok⟩ = ⟨p.scalingMin, if ok then value else p.scalingMax⟩ := by
  cases ok <;> rfl

/-- The kernel ends at the wanted limits exactly if every write arrives, where it holds the limits
that are not written. -/
theorem foldl_applyWrites_iff_lands (w : Writes) {p : A1000Power} {q : Policy}
    (hmin : wantMin p = p.curMin → q.scalingMin = wantMin p)
    (hmax : wantMax p = p.curMax → q.scalingMax = wantMax p) :
    (applyWrites w p).foldl Write.left q = ⟨wantMin p, wantMax p⟩ ↔ Lands q (applyWrites w p) := by
  rw [applyWrites]
  by_cases hmove : wantMin p = p.curMin
  · have hq := hmin hmove
    rw [if_neg (not_not.2 hmove)]
    rcases lt_trichotomy (wantMax p) p.curMax with hlt | heq | hgt
    · rw [if_neg hlt.not_gt, if_pos hlt]
      simp [Lands, Write.left_max, Write.asked, hq]
    · rw [if_neg heq.not_gt, if_neg heq.not_lt]
      have hq' := hmax heq
      simp [Lands, ← hq, ← hq']
    · rw [if_pos hgt, if_neg hgt.not_gt]
      simp [Lands, Write.left_max, Write.asked, hq]
  · rw [if_pos hmove]
    rcases lt_trichotomy (wantMax p) p.curMax with hlt | heq | hgt
    · rw [if_neg hlt.not_gt, if_pos hlt]
      simp [Lands, Write.left_max, Write.left_min, Write.asked]
    · rw [if_neg heq.not_gt, if_neg heq.not_lt]
      have hq' := hmax heq
      simp [Lands, Write.left_min, Write.asked, hq']
    · rw [if_pos hgt, if_neg hgt.not_gt]
      simp [Lands, Write.left_max, Write.left_min, Write.asked, and_comm]

/-- From legal limits that are remembered, writes that arrive invert nothing on their way. -/
theorem orderly_applyWrites (w : Writes) {p : A1000Power} {q : Policy}
    (hsynced : q = ⟨p.curMin, p.curMax⟩) (hlegal : q.Legal) (hlands : Lands q (applyWrites w p)) :
    Orderly q (applyWrites w p) := by
  subst hsynced
  have hle : p.curMin ≤ p.curMax := hlegal
  have hwant := wantMin_le_wantMax p
  rw [applyWrites] at hlands ⊢
  by_cases hmove : wantMin p = p.curMin
  · rw [if_neg (not_not.2 hmove)] at hlands ⊢
    rcases lt_trichotomy (wantMax p) p.curMax with hlt | heq | hgt
    · rw [if_neg hlt.not_gt, if_pos hlt]
      exact ⟨hmove.symm.le.trans hwant, trivial⟩
    · rw [if_neg heq.not_gt, if_neg heq.not_lt]
      trivial
    · rw [if_pos hgt, if_neg hgt.not_gt]
      exact ⟨hle.trans hgt.le, trivial⟩
  · rw [if_pos hmove] at hlands ⊢
    rcases lt_trichotomy (wantMax p) p.curMax with hlt | heq | hgt
    · rw [if_neg hlt.not_gt, if_pos hlt] at hlands ⊢
      refine ⟨hwant.trans hlt.le, ?_, trivial⟩
      rw [hlands.1]
      exact hwant
    · rw [if_neg heq.not_gt, if_neg heq.not_lt]
      exact ⟨hwant.trans heq.le, trivial⟩
    · rw [if_pos hgt, if_neg hgt.not_gt] at hlands ⊢
      refine ⟨hle.trans hgt.le, ?_, trivial⟩
      rw [hlands.1]
      exact hwant

theorem retries_applyWrites (w : Writes) {p : A1000Power} {q : Policy}
    (hsynced : q = ⟨p.curMin, p.curMax⟩) :
    Retries q ⟨wantMin p, wantMax p⟩ (applyWrites w p) := by
  subst hsynced
  refine ⟨fun hne => ?_, fun hne => ?_⟩
  · refine ⟨⟨.min, wantMin p, w.moveMin⟩, ?_, rfl, rfl⟩
    rw [applyWrites, if_pos hne]
    exact List.mem_append_left _ (List.mem_append_right _ (List.mem_singleton_self _))
  · rcases lt_or_gt_of_ne hne with hlt | hgt
    · refine ⟨⟨.max, wantMax p, w.lowerMax⟩, ?_, rfl, rfl⟩
      rw [applyWrites, if_pos hlt]
      exact List.mem_append_right _ (List.mem_singleton_self _)
    · refine ⟨⟨.max, wantMax p, w.raiseMax⟩, ?_, rfl, rfl⟩
      rw [applyWrites, if_pos hgt]
      exact List.mem_append_left _ (List.mem_append_left _ (List.mem_singleton_self _))

/-- What a call that writes does, in terms of its writes. -/
structure Landing (h : Session) (c : Call) (ws : List Write) : Prop where
  synced_iff : Synced (step h.sys c) ↔ Lands h.sys.policy ws
  orderly : h.applied = true → Lands h.sys.policy ws → Orderly h.sys.policy ws
  retries : h.applied = true → Retries h.sys.policy (target h.sys c) ws
  legal : (target h.sys c).Legal
  le : (target h.sys c).scalingMax ≤ FREQ_MAX

theorem landing_of_applyInput {h : Session} (hknown : Known h) {c : Call} {p : A1000Power}
    (hinput : applyInput h.sys.pwr c.op = some p) : Landing h c (applyWrites c.writes p) := by
  obtain ⟨hstep, hcurMin, hcurMax⟩ := step_of_applyInput hinput
  obtain ⟨hpwr, -⟩ := applyLocked_spec_any c.writes { h.sys with pwr := p }
  have hissued : issued h.sys.pwr c = some (applyWrites c.writes p) := by
    rw [issued, hinput]
  have hpolicy := step_policy h.sys c hissued
  have htarget : target h.sys c = ⟨wantMin p, wantMax p⟩ := by
    rw [target, hstep, hpwr]
  have hcached (happlied : h.applied = true) : h.sys.policy = ⟨p.curMin, p.curMax⟩ ∧
      h.sys.policy.Legal := by
    rw [Known, if_pos happlied] at hknown
    rw [hcurMin, hcurMax, hknown.1.1, hknown.1.2]
    exact ⟨rfl, hknown.2.1⟩
  -- before the first step nothing is remembered, so both limits are written
  have hheld : (wantMin p = p.curMin → h.sys.policy.scalingMin = wantMin p) ∧
      (wantMax p = p.curMax → h.sys.policy.scalingMax = wantMax p) := by
    by_cases happlied : h.applied = true
    · rw [(hcached happlied).1]
      exact ⟨fun heq => heq.symm, fun heq => heq.symm⟩
    · rw [Known, if_neg happlied] at hknown
      rw [hcurMin, hcurMax, hknown.1, hknown.2]
      have hmin := wantMin_pos p
      have hmax := (wantMax_le p).2
      exact ⟨fun heq => by omega, fun heq => by omega⟩
  refine ⟨?_, fun happlied hlands => ?_, fun happlied => ?_, ?_, ?_⟩
  · rw [← foldl_applyWrites_iff_lands c.writes hheld.1 hheld.2, ← hpolicy, Synced]
    have hcur : (step h.sys c).pwr.curMin = wantMin p ∧ (step h.sys c).pwr.curMax = wantMax p := by
      rw [hstep, hpwr]
      exact ⟨rfl, rfl⟩
    rw [hcur.1, hcur.2]
    generalize (step h.sys c).policy = q
    obtain ⟨qmin, qmax⟩ := q
    rw [Policy.mk.injEq, eq_comm, eq_comm (a := wantMax p)]
  · exact orderly_applyWrites c.writes (hcached happlied).1 (hcached happlied).2 hlands
  · rw [htarget]
    exact retries_applyWrites c.writes (hcached happlied).1
  · rw [htarget]
    exact wantMin_le_wantMax p
  · rw [htarget]
    exact (wantMax_le p).1

theorem landing_of_init {h : Session} (hknown : Known h) {c : Call} (hop : c.op = .init)
    (hinited : h.sys.pwr.inited = false) :
    Landing h c [⟨.max, FREQ_MAX, c.writes.raiseMax⟩, ⟨.min, FREQ_MIN, c.writes.moveMin⟩] := by
  have hissued : issued h.sys.pwr c =
      some [⟨.max, FREQ_MAX, c.writes.raiseMax⟩, ⟨.min, FREQ_MIN, c.writes.moveMin⟩] := by
    rw [issued, hop, applyInput]
    exact if_pos ⟨rfl, hinited⟩
  have hpolicy := step_policy h.sys c hissued
  have hstep := step_of_init hop hinited
  have htarget : target h.sys c = ⟨FREQ_MIN, FREQ_MAX⟩ := by
    rw [target, hstep]
  refine ⟨?_, fun happlied hlands => ?_, fun happlied => ?_, ?_, ?_⟩
  · rw [Synced, hpolicy, hstep]
    simp only [Lands, List.foldl_cons, List.foldl_nil, Write.left_max, Write.left_min, Write.asked,
      Policy.mk.injEq, and_true, true_and]
    constructor
    · intro ⟨hmin, hmax⟩
      exact ⟨hmax.symm, hmin.symm⟩
    · intro ⟨hmax, hmin⟩
      exact ⟨hmin.symm, hmax.symm⟩
  · rw [Known, if_pos happlied] at hknown
    obtain ⟨-, hlegal, hle⟩ := hknown
    refine ⟨le_trans hlegal hle, ?_, trivial⟩
    rw [hlands.1]
    show FREQ_MIN ≤ FREQ_MAX
    decide
  · rw [htarget]
    exact ⟨fun _ => ⟨_, List.mem_cons_of_mem _ (List.mem_singleton_self _), rfl, rfl⟩,
      fun _ => ⟨_, List.mem_cons_self, rfl, rfl⟩⟩
  · rw [htarget, Policy.Legal]
    decide
  · rw [htarget]

theorem landing_of_issued {h : Session} (hknown : Known h) {c : Call} {ws : List Write}
    (hws : issued h.sys.pwr c = some ws) : Landing h c ws := by
  rw [issued] at hws
  split at hws
  · rename_i p hinput
    cases hws
    exact landing_of_applyInput hknown hinput
  · split at hws
    · rename_i hinit
      cases hws
      exact landing_of_init hknown hinit.1 hinit.2
    · cases hws

theorem honest_iff_writesLand {h : Session} (hknown : Known h) (c : Call) :
    Honest h c ↔ WritesLand h c := by
  constructor
  · intro hhonest ws hws
    exact (landing_of_issued hknown hws).synced_iff.1 (hhonest ws hws).1
  · intro hlands ws hws
    have hlanding := landing_of_issued hknown hws
    exact ⟨hlanding.synced_iff.2 (hlands ws hws),
      fun happlied => ⟨hlanding.orderly happlied (hlands ws hws), hlanding.retries happlied⟩⟩

theorem known_step {h : Session} (hknown : Known h) {c : Call} (hlands : WritesLand h c) :
    Known (h.step c) := by
  cases hws : issued h.sys.pwr c with
  | none =>
      have hsame : h.step c = h := by
        rw [Session.step, step_of_issued_eq_none hws, hws, Option.isSome_none, Bool.or_false]
      rw [hsame]
      exact hknown
  | some ws =>
      have hlanding := landing_of_issued hknown hws
      obtain ⟨hmin, hmax⟩ := hlanding.synced_iff.2 (hlands ws hws)
      have happlied : (h.step c).applied = true := by
        rw [Session.step, hws]
        exact Bool.or_true _
      have hlegal := hlanding.legal
      have hle := hlanding.le
      rw [target, hmin, hmax] at hlegal hle
      rw [Known, if_pos happlied]
      exact ⟨⟨hmin, hmax⟩, hlegal, hle⟩

/-! ### Every run -/

/-- In a run from the loaded HAL, with any outcome of its writes, every call that writes leaves the
kernel's limits remembered, makes up for what is missing and inverts no limits exactly if every
write of the run arrives. -/
theorem honest_iff_writes_land (policy : Policy) (calls : List Call) :
    Run.EachStep Session.step Honest (loaded policy) calls ↔
      Run.EachStep Session.step WritesLand (loaded policy) calls := by
  apply Run.eachStep_iff_of_invariant (P := Known)
  · exact fun h c hknown hlands => known_step hknown hlands
  · exact fun h c hknown => honest_iff_writesLand hknown c
  · exact ⟨rfl, rfl⟩

/-- The screen goes off and on again while the write that raises the upper limit fails, then an
application is started. -/
def failedRaise : List Call :=
  [⟨.init, .ok⟩, ⟨.setInteractive false, .ok⟩, ⟨.setInteractive true, ⟨false, true, true⟩⟩,
    ⟨.setInteractive true, .ok⟩, ⟨.powerHint .launch 0, .ok⟩]

/-- The HAL remembers the upper limit that the kernel never got, does not write it again, and then
asks for a lower limit above the one the kernel holds. -/
theorem failed_raise_is_remembered :
    let third := Run.final Session.step (loaded ⟨768000, 1300000⟩) (failedRaise.take 3)
    let fourth := Run.final Session.step (loaded ⟨768000, 1300000⟩) (failedRaise.take 4)
    third.sys.pwr.curMax = 1300000 ∧ third.sys.policy.scalingMax = 1000000 ∧
      issued third.sys.pwr ⟨.setInteractive true, .ok⟩ = some [] ∧
      issued fourth.sys.pwr ⟨.powerHint .launch 0, .ok⟩ = some [⟨.min, 1200000, true⟩] ∧
      ¬ Orderly fourth.sys.policy [⟨.min, 1200000, true⟩] ∧
      ¬ Run.EachStep Session.step Honest (loaded ⟨768000, 1300000⟩) failedRaise := by
  decide

end LineageA1000.Power
