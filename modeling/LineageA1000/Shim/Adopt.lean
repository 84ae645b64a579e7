import LineageA1000.Lib.Memory
import LineageA1000.Lib.Run

/-!
# Adopted windows

`libsprdshim_egl.c`: `eglCreateWindowSurface` replaces the query function of a window that does not
know the newer attributes by `shim_query`, and notes the window's own function in a table of four
entries. The table is searched by address from its start, and no entry is ever taken back. The
module follows windows from their creation to their destruction, so that an address can come to
stand for another window.

The bounded trace of the queries is left out: nothing reads it.
-/

namespace LineageA1000.Shim.Adopt

open Memory

/-! ### Queries -/

/-- What a query function returns, and what it stores in `*value`, if anything. -/
structure Reply where
  rc : Int
  value : Option Int
  deriving DecidableEq

/-- As `Reply`, with the calls made of other query functions. -/
structure Answer (F : Type) where
  rc : Int
  value : Option Int
  calls : List (F × Int)
  deriving DecidableEq

variable {F : Type}

/-- How the query functions of the windows answer at some time. -/
abbrev World (F : Type) := F → Addr → Int → Reply

def nativeWindowWidth : Int := 0

def nativeWindowHeight : Int := 1

def nativeWindowDefaultWidth : Int := 6

def nativeWindowDefaultHeight : Int := 7

def nativeWindowDefaultDataspace : Int := 12

def nativeWindowBufferAge : Int := 13

def nativeWindowLayerCount : Int := 16

def nativeWindowIsValid : Int := 17

def halDataspaceUnknown : Int := 0

def einval : Int := 22

def maxWindows : Nat := 4

/-- An entry of `g_adopted`. -/
structure Adopted (F : Type) where
  win : Addr
  query : F
  deriving DecidableEq

/-- The search of `shim_query`. -/
def lookup (table : List (Adopted F)) (win : Addr) : Option F :=
  (table.find? fun a => a.win = win).map Adopted.query

/-- The end of `shim_query`, after some calls that have left `stored` in `*value`. -/
def forward (world : World F) (orig : Option F) (win : Addr) (what : Int)
    (calls : List (F × Int)) (stored : Option Int) : Answer F :=
  match orig with
  | some f =>
      let r := world f win what
      ⟨r.rc, if r.rc ≠ 0 then some 0 else r.value.or stored, calls ++ [(f, what)]⟩
  | none => ⟨-einval, some 0, calls⟩

/-- `WIDTH` and `HEIGHT`: the original is asked for the attribute that it decodes. -/
def askDefault (world : World F) (orig : Option F) (win : Addr) (what default : Int) : Answer F :=
  match orig with
  | some f =>
      let r := world f win default
      if r.rc = 0 then ⟨0, r.value, [(f, default)]⟩
      else forward world orig win what [(f, default)] r.value
  | none => forward world orig win what [] none

/-- `shim_query`, once the original has been looked up. -/
def answer (world : World F) (orig : Option F) (win : Addr) (what : Int) : Answer F :=
  if what = nativeWindowIsValid then ⟨0, some 1, []⟩
  else if what = nativeWindowLayerCount then ⟨0, some 1, []⟩
  else if what = nativeWindowBufferAge then ⟨0, some 0, []⟩
  else if what = nativeWindowDefaultDataspace then ⟨0, some halDataspaceUnknown, []⟩
  else if what = nativeWindowWidth then askDefault world orig win what nativeWindowDefaultWidth
  else if what = nativeWindowHeight then askDefault world orig win what nativeWindowDefaultHeight
  else forward world orig win what [] none

def shimQuery (world : World F) (table : List (Adopted F)) (win : Addr) (what : Int) : Answer F :=
  answer world (lookup table win) win what

/-! ### Windows -/

inductive QueryPtr (F : Type) where
  | shimQuery
  | orig (f : F)
  deriving DecidableEq

/-- A window: its query pointer, and the function that it was made with. -/
structure Window (F : Type) where
  query : QueryPtr F
  own : F
  deriving DecidableEq

/-- The windows of the process and the variables of the shim. -/
structure State (F : Type) where
  windows : Addr → Option (Window F)
  adopted : List (Adopted F)
  /-- `real` has been resolved. -/
  resolved : Bool

def start : State F := ⟨fun _ => none, [], false⟩

def State.setWindow (s : State F) (win : Addr) (w : Option (Window F)) : State F :=
  { s with windows := fun a => if a = win then w else s.windows a }

/-- The function of the window that a call of `eglCreateWindowSurface` adopts, if it adopts one. A
query that stores nothing leaves `valid` at zero. -/
def adopts (s : State F) (win : Addr) (world : World F) (found : Bool) : Option F :=
  if s.resolved = false ∧ found = false then none
  else
    match s.windows win with
    | some ⟨.orig f, _⟩ =>
        if (world f win nativeWindowIsValid).value.getD 0 ≠ 0 then none
        else if s.adopted.length < maxWindows then some f
        else none
    | _ => none

/-- `eglCreateWindowSurface`, as far as it changes anything; `found` is whether the real function
can be resolved. A null window is one that does not exist. -/
def eglCreateWindowSurface (s : State F) (win : Addr) (world : World F) (found : Bool) : State F :=
  let s' := { s with resolved := s.resolved || found }
  match adopts s win world found with
  | none => s'
  | some f =>
      let adopted : State F := { s' with adopted := s.adopted ++ [⟨win, f⟩] }
      adopted.setWindow win ((s.windows win).map fun w => { w with query := .shimQuery })

inductive Event (F : Type) where
  | create (win : Addr) (f : F)
  | destroy (win : Addr)
  | createSurface (win : Addr) (world : World F) (found : Bool)
  | query (win : Addr) (world : World F) (what : Int)

/-- A window is made only where there is none. -/
def step (s : State F) : Event F → State F
  | .create win f => if (s.windows win).isSome then s else s.setWindow win (some ⟨.orig f, f⟩)
  | .destroy win => s.setWindow win none
  | .createSurface win world found => eglCreateWindowSurface s win world found
  | .query .. => s

/-! ### What has to hold -/

/-- The attributes that the shim does not pass on as they are. -/
def Overridden (what : Int) : Prop :=
  what = nativeWindowIsValid ∨ what = nativeWindowLayerCount ∨ what = nativeWindowBufferAge ∨
    what = nativeWindowDefaultDataspace ∨ what = nativeWindowWidth ∨ what = nativeWindowHeight

instance (what : Int) : Decidable (Overridden what) := by
  unfold Overridden
  infer_instance

/-- Through the shim a window's own function answers: no other is called, and what is not overridden
is its reply, with a zero in the place of a value that failed. -/
def AnsweredBy (own : F) (world : World F) (win : Addr) (what : Int) (a : Answer F) : Prop :=
  (∀ c ∈ a.calls, c.1 = own) ∧
    (¬ Overridden what → a.calls = [(own, what)] ∧ a.rc = (world own win what).rc ∧
      a.value = if a.rc = 0 then (world own win what).value else some 0)

/-- Whatever is asked of an adopted window, its own function answers. -/
def Delegating (s : State F) : Prop :=
  ∀ win w, s.windows win = some w → w.query = .shimQuery →
    ∀ (world : World F) (what : Int),
      AnsweredBy w.own world win what (shimQuery world s.adopted win what)

/-- A query through the shim that reports success has stored a value. -/
def StoresValue (s : State F) : Event F → Prop
  | .query win world what => ∀ w, s.windows win = some w → w.query = .shimQuery →
      (shimQuery world s.adopted win what).rc = 0 →
      (shimQuery world s.adopted win what).value.isSome
  | _ => True

/-- A step after which every later query is delegated, and which stores a value on success. -/
def Honest (s : State F) (e : Event F) : Prop := Delegating (step s e) ∧ StoresValue s e

/-- The query function stores a value where it reports success. -/
def Reply.Keeps (r : Reply) : Prop := r.rc = 0 → r.value.isSome

instance (r : Reply) : Decidable r.Keeps := inferInstanceAs (Decidable (_ → _))

/-- The replies of a window's function that a query through the shim comes down to keep to storing a
value where they report success. For `WIDTH` and `HEIGHT` that is the reply for the default, or else
what both calls leave. -/
def RepliesKeep (world : World F) (own : F) (win : Addr) (what : Int) : Prop :=
  if what = nativeWindowWidth ∨ what = nativeWindowHeight then
    let d := world own win
      (if what = nativeWindowWidth then nativeWindowDefaultWidth else nativeWindowDefaultHeight)
    if d.rc = 0 then d.Keeps else d.value = none → (world own win what).Keeps
  else Overridden what ∨ (world own win what).Keeps

/-- A window is adopted only where the table has no other function at its address, and the replies
that a query comes down to store a value where they report success. -/
def Apart (s : State F) : Event F → Prop
  | .createSurface win world found => ∀ f ∈ adopts s win world found, ∀ g ∈ lookup s.adopted win,
      g = f
  | .query win world what => ∀ w, s.windows win = some w → w.query = .shimQuery →
      RepliesKeep world w.own win what
  | .create .. | .destroy _ => True

/-! ### The answers -/

/-- The constants are stored without asking anyone. -/
theorem answer_const {what : Int} (hconst : what = nativeWindowIsValid ∨
    what = nativeWindowLayerCount ∨ what = nativeWindowBufferAge ∨
    what = nativeWindowDefaultDataspace) (world : World F) (orig : Option F) (win : Addr) :
    ∃ v, answer world orig win what = ⟨0, some v, []⟩ := by
  rcases hconst with rfl | rfl | rfl | rfl
  · exact ⟨1, rfl⟩
  · exact ⟨1, rfl⟩
  · exact ⟨0, rfl⟩
  · exact ⟨halDataspaceUnknown, rfl⟩

theorem answer_forward {what : Int} (hplain : ¬ Overridden what) (world : World F)
    (orig : Option F) (win : Addr) :
    answer world orig win what = forward world orig win what [] none := by
  simp only [Overridden, not_or] at hplain
  obtain ⟨h1, h2, h3, h4, h5, h6⟩ := hplain
  rw [answer, if_neg h1, if_neg h2, if_neg h3, if_neg h4, if_neg h5, if_neg h6]

theorem answer_size {what : Int} (hsize : what = nativeWindowWidth ∨ what = nativeWindowHeight)
    (world : World F) (orig : Option F) (win : Addr) :
    answer world orig win what = askDefault world orig win what
      (if what = nativeWindowWidth then nativeWindowDefaultWidth
      else nativeWindowDefaultHeight) := by
  rcases hsize with rfl | rfl <;> rfl

theorem answer_cases (what : Int) : ¬ Overridden what ∨
    (what = nativeWindowWidth ∨ what = nativeWindowHeight) ∨ what = nativeWindowIsValid ∨
      what = nativeWindowLayerCount ∨ what = nativeWindowBufferAge ∨
      what = nativeWindowDefaultDataspace := by
  unfold Overridden
  tauto

theorem askDefault_calls (world : World F) (f : F) (win : Addr) (what default : Int) :
    ∀ c ∈ (askDefault world (some f) win what default).calls, c.1 = f := by
  rw [askDefault]
  split
  · intro c hc
    rw [List.mem_singleton.1 hc]
  · intro c hc
    rcases List.mem_append.1 hc with h | h <;> rw [List.mem_singleton.1 h]

theorem answeredBy_answer (world : World F) (f : F) (win : Addr) (what : Int) :
    AnsweredBy f world win what (answer world (some f) win what) := by
  rcases answer_cases what with hplain | hsize | hconst
  · rw [answer_forward hplain]
    refine ⟨fun c hc => ?_, fun _ => ⟨rfl, rfl, ?_⟩⟩
    · rw [List.mem_singleton.1 hc]
    · show (if (world f win what).rc ≠ 0 then some 0 else (world f win what).value.or none) = _
      rw [Option.or_none, ite_not]
      rfl
  · have hover : Overridden what := by
      unfold Overridden
      tauto
    refine ⟨?_, fun hplain => absurd hover hplain⟩
    rw [answer_size hsize]
    exact askDefault_calls world f win what _
  · have hover : Overridden what := by
      unfold Overridden
      tauto
    obtain ⟨v, hv⟩ := answer_const hconst world (some f) win
    rw [hv]
    exact ⟨nofun, fun hplain => absurd hover hplain⟩

/-- An attribute that is passed on tells which function was asked. -/
theorem lookup_of_answeredBy {own : F} {world : World F} {table : List (Adopted F)} {win : Addr}
    (h : AnsweredBy own world win 2 (shimQuery world table win 2)) :
    lookup table win = some own := by
  have hcalls := (h.2 (by decide)).1
  have hforward :
      shimQuery world table win 2 = forward world (lookup table win) win 2 [] none := rfl
  rw [hforward] at hcalls
  cases horig : lookup table win with
  | none =>
      rw [horig] at hcalls
      cases hcalls
  | some f =>
      rw [horig] at hcalls
      cases hcalls
      rfl

theorem stores_iff_repliesKeep (world : World F) (f : F) (win : Addr) (what : Int) :
    ((answer world (some f) win what).rc = 0 → (answer world (some f) win what).value.isSome) ↔
      RepliesKeep world f win what := by
  rcases answer_cases what with hplain | hsize | hconst
  · have hsize : ¬ (what = nativeWindowWidth ∨ what = nativeWindowHeight) := by
      unfold Overridden at hplain
      tauto
    rw [answer_forward hplain, RepliesKeep, if_neg hsize, or_iff_right hplain]
    show ((world f win what).rc = 0 →
      (if (world f win what).rc ≠ 0 then some 0 else (world f win what).value.or none).isSome) ↔ _
    apply imp_congr_right
    intro hok
    rw [if_neg (not_not.2 hok), Option.or_none]
  · rw [answer_size hsize, RepliesKeep, if_pos hsize, askDefault]
    generalize (if what = nativeWindowWidth then nativeWindowDefaultWidth
      else nativeWindowDefaultHeight) = default
    dsimp only
    split
    case isTrue hok => exact ⟨fun h _ => h rfl, fun h _ => h hok⟩
    case isFalse hfail =>
      show ((world f win what).rc = 0 → (if (world f win what).rc ≠ 0 then some 0
        else (world f win what).value.or (world f win default).value).isSome) ↔ _
      constructor
      · intro h hnone hok
        have hsome := h hok
        rwa [if_neg (not_not.2 hok), hnone, Option.or_none] at hsome
      · intro h hok
        rw [if_neg (not_not.2 hok)]
        cases hvalue : (world f win default).value with
        | none =>
            rw [Option.or_none]
            exact h hvalue hok
        | some v => cases (world f win what).value <;> rfl
  · obtain ⟨v, hv⟩ := answer_const hconst world (some f) win
    have hover : Overridden what := by
      unfold Overridden
      tauto
    have hsize : ¬ (what = nativeWindowWidth ∨ what = nativeWindowHeight) := by
      rcases hconst with rfl | rfl | rfl | rfl <;> decide
    rw [hv, RepliesKeep, if_neg hsize]
    exact ⟨fun _ => .inl hover, fun _ _ => rfl⟩

/-! ### Every run -/

/-- The table has its own function for every adopted window, and the others still have theirs. -/
def Sound (s : State F) : Prop :=
  ∀ win w, s.windows win = some w →
    match w.query with
    | .shimQuery => lookup s.adopted win = some w.own
    | .orig f => f = w.own

theorem delegating_of_sound {s : State F} (hs : Sound s) : Delegating s := by
  intro win w hw hquery world what
  have hlookup := hs win w hw
  rw [hquery] at hlookup
  rw [shimQuery, hlookup]
  exact answeredBy_answer world w.own win what

theorem lookup_append (table : List (Adopted F)) (win win' : Addr) (f : F) :
    lookup (table ++ [⟨win, f⟩]) win' =
      (lookup table win').or (if win = win' then some f else none) := by
  rw [lookup, lookup, List.find?_append]
  cases table.find? fun a => decide (a.win = win') with
  | some a => rfl
  | none =>
      rw [Option.none_or, List.find?_singleton, Option.map_none, Option.none_or]
      by_cases heq : win = win'
      · simp [heq]
      · simp [heq]

theorem adopts_spec {s : State F} {win : Addr} {world : World F} {found : Bool} {f : F}
    (hadopts : adopts s win world found = some f) :
    ∃ w, s.windows win = some w ∧ w.query = .orig f := by
  rw [adopts] at hadopts
  split at hadopts
  · cases hadopts
  split at hadopts
  · rename_i f' own hwin
    split at hadopts
    · cases hadopts
    split at hadopts
    · cases hadopts
      exact ⟨⟨.orig f, own⟩, hwin, rfl⟩
    · cases hadopts
  · cases hadopts

/-- After an adoption the window's queries go through the shim, and its function is the last entry
of the table. -/
theorem eglCreateWindowSurface_adopts {s : State F} {win : Addr} {world : World F} {found : Bool}
    {f : F} (hadopts : adopts s win world found = some f) {w : Window F}
    (hwin : s.windows win = some w) :
    (eglCreateWindowSurface s win world found).adopted = s.adopted ++ [⟨win, f⟩] ∧
      (eglCreateWindowSurface s win world found).windows = fun a =>
        if a = win then some { w with query := .shimQuery } else s.windows a := by
  rw [eglCreateWindowSurface, hadopts, hwin]
  exact ⟨rfl, rfl⟩

theorem eglCreateWindowSurface_keeps {s : State F} {win : Addr} {world : World F} {found : Bool}
    (hnone : adopts s win world found = none) :
    (eglCreateWindowSurface s win world found).adopted = s.adopted ∧
      (eglCreateWindowSurface s win world found).windows = s.windows := by
  rw [eglCreateWindowSurface, hnone]
  exact ⟨rfl, rfl⟩

theorem sound_setWindow {s : State F} (hs : Sound s) (win : Addr) {w : Option (Window F)}
    (hw : ∀ w' ∈ w, ∃ f, w' = ⟨.orig f, f⟩) : Sound (s.setWindow win w) := by
  intro win' w' hwin
  have hwin' : (if win' = win then w else s.windows win') = some w' := hwin
  split at hwin'
  · obtain ⟨f, rfl⟩ := hw w' hwin'
    rfl
  · exact hs win' w' hwin'

/-- One step: what is sound stays so exactly if the window is kept apart from the table, and else a
query goes wrong. -/
theorem sound_step {s : State F} (hs : Sound s) {e : Event F} (he : Apart s e) :
    Sound (step s e) := by
  cases e with
  | create win f =>
      show Sound (if (s.windows win).isSome then s else s.setWindow win (some ⟨.orig f, f⟩))
      split
      · exact hs
      · refine sound_setWindow hs win fun w' hw' => ⟨f, ?_⟩
        exact (Option.mem_some.1 hw').symm
  | destroy win => exact sound_setWindow hs win nofun
  | query win world what => exact hs
  | createSurface win world found =>
      show Sound (eglCreateWindowSurface s win world found)
      cases hadopts : adopts s win world found with
      | none =>
          obtain ⟨hadopted, hwindows⟩ := eglCreateWindowSurface_keeps hadopts
          intro win' w' hwin'
          rw [hadopted]
          rw [hwindows] at hwin'
          exact hs win' w' hwin'
      | some f =>
          obtain ⟨w, hwin, hquery⟩ := adopts_spec hadopts
          obtain ⟨hadopted, hwindows⟩ := eglCreateWindowSurface_adopts hadopts hwin
          have hown : f = w.own := by
            have hsound := hs win w hwin
            rw [hquery] at hsound
            exact hsound
          intro win' w' hwin'
          rw [hadopted, lookup_append]
          rw [hwindows] at hwin'
          dsimp only at hwin'
          split at hwin'
          · rename_i heq
            cases hwin'
            subst heq
            dsimp only
            rw [if_pos rfl]
            cases hlookup : lookup s.adopted win' with
            | none => rw [Option.none_or, hown]
            | some g => rw [Option.some_or, he f hadopts g hlookup, hown]
          · rename_i hne
            rw [if_neg (Ne.symm hne), Option.or_none]
            exact hs win' w' hwin'

theorem honest_iff_apart {s : State F} (hs : Sound s) (e : Event F) :
    Honest s e ↔ Apart s e := by
  constructor
  · intro ⟨hdelegating, hstores⟩
    cases e with
    | create win f => trivial
    | destroy win => trivial
    | query win world what =>
        intro w hwin hquery
        have hlookup := hs win w hwin
        rw [hquery] at hlookup
        have hstored := hstores w hwin hquery
        rw [shimQuery, hlookup] at hstored
        exact (stores_iff_repliesKeep world w.own win what).1 hstored
    | createSurface win world found =>
        intro f hadopts g hlookup
        obtain ⟨w, hwin, hquery⟩ := adopts_spec hadopts
        obtain ⟨hadopted, hwindows⟩ := eglCreateWindowSurface_adopts hadopts hwin
        have hown : f = w.own := by
          have hsound := hs win w hwin
          rw [hquery] at hsound
          exact hsound
        have hnew : (eglCreateWindowSurface s win world found).windows win =
            some { w with query := .shimQuery } := by
          rw [hwindows]
          exact if_pos rfl
        have hfirst : lookup (eglCreateWindowSurface s win world found).adopted win = some w.own :=
          lookup_of_answeredBy (hdelegating win _ hnew rfl world 2)
        rw [hadopted, lookup_append, hlookup, Option.some_or, Option.some.injEq] at hfirst
        rw [hfirst, hown]
  · intro hapart
    refine ⟨delegating_of_sound (sound_step hs hapart), ?_⟩
    cases e with
    | query win world what =>
        intro w hwin hquery
        have hlookup := hs win w hwin
        rw [hquery] at hlookup
        rw [shimQuery, hlookup]
        exact (stores_iff_repliesKeep world w.own win what).2 (hapart w hwin hquery)
    | create win f => trivial
    | destroy win => trivial
    | createSurface win world found => trivial

/-- In every run, each adopted window is answered by its own function, and with a stored value where
it is told of success, exactly if each adoption finds no other function at the window's address and
the functions store a value where they report success. -/
theorem honest_iff_kept_apart (events : List (Event F)) :
    Run.EachStep step Honest (start : State F) events ↔
      Run.EachStep step Apart (start : State F) events := by
  apply Run.eachStep_iff_of_invariant (P := Sound)
  · exact fun s e hs he => sound_step hs he
  · exact fun s e hs => honest_iff_apart hs e
  · intro win w hw
    cases hw

/-- Two functions, each of which answers every attribute with its own number and does not know the
newer ones. -/
def twoFunctions : World Nat := fun f _ what =>
  if what = nativeWindowIsValid then ⟨-einval, none⟩ else ⟨0, some f⟩

/-- A window is adopted and destroyed, and another one is made at its address and adopted. -/
def reusedAddress : List (Event Nat) :=
  [.create 0x1000 7, .createSurface 0x1000 twoFunctions true, .destroy 0x1000, .create 0x1000 8,
    .createSurface 0x1000 twoFunctions true]

/-- The second window is answered by the function of the first. -/
theorem stale_entry_answers :
    let s := Run.final step (start : State Nat) reusedAddress
    s.windows 0x1000 = some ⟨.shimQuery, 8⟩ ∧
      shimQuery twoFunctions s.adopted 0x1000 2 = ⟨0, some 7, [(7, 2)]⟩ ∧
      ¬ Run.EachStep step Honest (start : State Nat) reusedAddress := by
  refine ⟨by decide, by decide, ?_⟩
  rintro ⟨-, -, -, -, ⟨hdelegating, -⟩, -⟩
  have hlookup : lookup (Run.final step (start : State Nat) reusedAddress).adopted 0x1000 =
      some 8 :=
    lookup_of_answeredBy (hdelegating 0x1000 ⟨.shimQuery, 8⟩ (by decide) rfl twoFunctions 2)
  revert hlookup
  decide

end LineageA1000.Shim.Adopt
