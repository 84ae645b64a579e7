import LineageA1000.Shim.Post

/-!
# Whose `post` is called back

The shim puts its own `post` into every frame buffer device it meets, when gralloc opens one and
when `compositionComplete` passes one by, and keeps what was there in `g_real_post`. That is one
variable for all devices: a fallback calls what the device patched last had there. Whether that is
the device's own is the subject here, for any order of opening, patching, posting and closing.
-/

namespace LineageA1000.Shim

open LineageA1000.Run
open Dispc (Device FbConst Op)

/-- What a `post` pointer may hold: the function a device came with, or the shim's. -/
inductive PostFn where
  | original (id : Nat)
  | overlay
  deriving DecidableEq, Repr

/-- An open device: the function it came with and the pointer as it is now. -/
structure FbDevice where
  own : Nat
  post : PostFn
  deriving DecidableEq, Repr

/-- What the kernel answers `a1000_patch_post`: whether `/dev/graphics/fb0` opens, and the size of
the screen unless `FBIOGET_VSCREENINFO` fails. -/
structure FbAnswers where
  opens : Bool
  info : Option (Word × Word)
  deriving DecidableEq, Repr

/-- What `a1000_zc_hook_fb` finds: the properties, the kernel, and whether the factory can be
hooked. -/
structure HookAnswers where
  zerocopy : Bool
  zcsync : Bool
  fb : FbAnswers
  factory : Bool
  deriving DecidableEq, Repr

/-- The variables of the shim, the open devices and the driver. `fbTried` says that `g_fbfd` has a
value, `hooked` that `methods->open` is the shim's. -/
structure Hooks where
  fb : Fb
  fbTried : Bool
  realPost : Option PostFn
  hooked : Bool
  zc : Option Bool
  devs : Nat → Option FbDevice
  dispc : Dispc.State

namespace Hooks

def start (fb : Fb) (dispc : Dispc.State) : Hooks :=
  ⟨fb, false, none, false, none, fun _ => none, dispc⟩

/-! ### The hooks -/

/-- `a1000_fbopen`: once. -/
def fbOpen (a : FbAnswers) (s : Hooks) : Hooks :=
  if s.fbTried then s else { s with fbTried := true, fb := { s.fb with fdOpen := a.opens } }

/-- `a1000_patch_post`. -/
def patchPost (a : FbAnswers) (dev : Option Nat) (s : Hooks) : Hooks :=
  let s := fbOpen a s
  match dev with
  | none => s
  | some dev =>
      match s.devs dev with
      | none => s
      | some v =>
          if v.post = .overlay ∨ s.fb.fdOpen = false then s
          else
            match a.info with
            | none => s
            | some (xres, yres) =>
                { s with
                  fb := { s.fb with
                    w := xres.setWidth 16, h := yres.setWidth 16, frame := (xres * yres * 4).toNat }
                  realPost := some v.post
                  devs := Function.update s.devs dev (some { v with post := .overlay }) }

/-- gralloc's own `open` of a frame buffer device. -/
def gralloc (dev own : Nat) (s : Hooks) : Hooks :=
  { s with devs := Function.update s.devs dev (some ⟨own, .original own⟩) }

/-- `a1000_zc_hook_fb`. -/
def zcHookFb (a : HookAnswers) (dev : Option Nat) (s : Hooks) : Hooks :=
  if s.zc = some false ∨ (s.zc = some true ∧ s.hooked ∧ dev = none) then s
  else if s.zc = none ∧ a.zerocopy = false then { s with zc := some false }
  else
    let s := if s.zc = none then { s with zc := some true, fb := { s.fb with sync := a.zcsync } }
      else s
    let s := patchPost a.fb dev s
    { s with hooked := s.hooked || a.factory }

inductive Event where
  /-- `through` says that the open goes through `methods->open` as it is in memory. -/
  | opened (dev own : Nat) (through : Bool) (a : FbAnswers)
  | closed (dev : Nat)
  | zcHook (dev : Option Nat) (a : HookAnswers)
  /-- `hw_get_module` for gralloc; whether the page can be written. -/
  | getModule (factory : Bool)
  | post (dev : Nat) (p : Post)
  | op (op : Op)

variable (K : FbConst) (d : Device)

/-- A post to a patched device; the others' posts are not the shim's. -/
def postTo (dev : Nat) (p : Post) (s : Hooks) : Hooks :=
  match s.devs dev with
  | some ⟨_, .overlay⟩ =>
      let r := overlayPost K d p { s.fb with realPost := s.realPost.isSome } s.dispc
      { s with fb := r.1, dispc := r.2.1 }
  | _ => s

def step (s : Hooks) : Event → Hooks
  | .opened dev own through a =>
      if through ∧ s.hooked then patchPost a (some dev) (s.gralloc dev own) else s.gralloc dev own
  | .closed dev => { s with devs := Function.update s.devs dev none }
  | .zcHook dev a => zcHookFb a dev s
  | .getModule factory => { s with hooked := s.hooked || factory }
  | .post dev p => postTo K d dev p s
  | .op op => { s with dispc := (Dispc.exec K d s.dispc op).2 }

/-! ### Falling back -/

/-- `a1000_overlay_post` gets to `fallback`. -/
def fallsBack (s : Hooks) (p : Post) : Bool :=
  (overlayPost K d p { s.fb with realPost := true } s.dispc).2.2.real != []

/-- The functions called for a post to a device. -/
def called (s : Hooks) (dev : Nat) (p : Post) : List PostFn :=
  match s.devs dev with
  | none => []
  | some v =>
      match v.post with
      | .overlay => if s.fallsBack K d p then s.realPost.toList else []
      | .original id => [.original id]

/-- Whatever is posted to a patched device next: a fallback calls exactly the device's own
function. -/
def CallsOwn (s : Hooks) : Prop :=
  ∀ dev v p, s.devs dev = some v → v.post = .overlay → s.fallsBack K d p = true →
    s.called K d dev p = [.original v.own]

/-- A device is patched now. -/
def Takes (a : FbAnswers) (dev : Nat) (s : Hooks) (v : FbDevice) : Prop :=
  s.devs dev = some v ∧ v.post ≠ .overlay ∧ (fbOpen a s).fb.fdOpen = true ∧ a.info ≠ none

/-- The other patched devices came with this function too. -/
def Agrees (s : Hooks) (dev own : Nat) : Prop :=
  ∀ dev' v', dev' ≠ dev → s.devs dev' = some v' → v'.post = .overlay → v'.own = own

def PatchAgrees (a : FbAnswers) (dev : Nat) (s : Hooks) : Prop :=
  ∀ v, Takes a dev s v → s.Agrees dev v.own

/-- The step patches no device that came with another function than those patched and still open. -/
def StepAgrees (s : Hooks) : Event → Prop
  | .opened dev own through a => through → s.hooked → PatchAgrees a dev (s.gralloc dev own)
  | .zcHook (some dev) a => s.zc = some true ∨ (s.zc = none ∧ a.zerocopy) → PatchAgrees a.fb dev s
  | _ => True

/-- A pointer holds the device's own function or the shim's. -/
def Plain (s : Hooks) : Prop :=
  ∀ dev v, s.devs dev = some v → v.post = .original v.own ∨ v.post = .overlay

/-- What `CallsOwn` comes to. -/
def KeepsOwn (s : Hooks) : Prop :=
  ∀ dev v, s.devs dev = some v → v.post = .overlay → s.realPost = some (.original v.own)

variable {K d}

/-- A post of a buffer without a physical address falls back. -/
theorem exists_fallsBack (s : Hooks) : ∃ p, s.fallsBack K d p = true := by
  refine ⟨⟨⟨[]⟩, none, none, .done, [], none, .done, [], none, .done, .prompt, 0⟩, ?_⟩
  unfold fallsBack overlayPost
  rw [show physOf none s.fb.frame ⟨[]⟩ = 0 from rfl]
  dsimp only
  split <;> rfl

theorem callsOwn_iff {s : Hooks} : s.CallsOwn K d ↔ s.KeepsOwn := by
  have hcalled {dev : Nat} {v : FbDevice} {p : Post} (hdev : s.devs dev = some v)
      (hpost : v.post = .overlay) (hfalls : s.fallsBack K d p = true) :
      s.called K d dev p = s.realPost.toList := by
    simp only [called, hdev, hpost, hfalls, if_true]
  constructor
  · intro h dev v hdev hpost
    obtain ⟨p, hp⟩ := exists_fallsBack (K := K) (d := d) s
    have hown := h dev v p hdev hpost hp
    rw [hcalled hdev hpost hp] at hown
    cases hreal : s.realPost with
    | none =>
        rw [hreal] at hown
        cases hown
    | some f =>
        rw [hreal, Option.toList_some] at hown
        rw [List.head_eq_of_cons_eq hown]
  · intro h dev v p hdev hpost hp
    rw [hcalled hdev hpost hp, h dev v hdev hpost]
    rfl

/-! ### Patching -/

@[simp] theorem fbOpen_devs (a : FbAnswers) (s : Hooks) : (fbOpen a s).devs = s.devs := by
  unfold fbOpen
  split <;> rfl

@[simp] theorem fbOpen_realPost (a : FbAnswers) (s : Hooks) :
    (fbOpen a s).realPost = s.realPost := by
  unfold fbOpen
  split <;> rfl

theorem patchPost_takes {a : FbAnswers} {dev : Nat} {s : Hooks} {v : FbDevice}
    (h : Takes a dev s v) :
    (patchPost a (some dev) s).realPost = some v.post ∧
      (patchPost a (some dev) s).devs =
        Function.update s.devs dev (some { v with post := .overlay }) := by
  obtain ⟨hdev, hpost, hopen, hinfo⟩ := h
  obtain ⟨⟨xres, yres⟩, hinfo⟩ := Option.ne_none_iff_exists'.1 hinfo
  have hgo : ¬(v.post = .overlay ∨ (fbOpen a s).fb.fdOpen = false) := by
    rw [hopen]
    simpa using hpost
  unfold patchPost
  simp only [fbOpen_devs, hdev, if_neg hgo, hinfo, and_self]

/-- Otherwise only the frame buffer's descriptor may change. -/
theorem patchPost_not {a : FbAnswers} {dev : Option Nat} {s : Hooks}
    (h : ∀ n v, dev = some n → ¬Takes a n s v) : patchPost a dev s = fbOpen a s := by
  cases dev with
  | none => rfl
  | some n =>
      unfold patchPost
      simp only [fbOpen_devs]
      cases hdev : s.devs n with
      | none => rfl
      | some v =>
          by_cases hstop : v.post = .overlay ∨ (fbOpen a s).fb.fdOpen = false
          · exact if_pos hstop
          · obtain ⟨hpost, hopen⟩ := not_or.1 hstop
            simp only [if_neg hstop]
            cases hinfo : a.info with
            | none => rfl
            | some info =>
                refine absurd ⟨hdev, hpost, ?_, ?_⟩ (h n v rfl)
                · simpa using hopen
                · rw [hinfo]
                  exact Option.some_ne_none _

theorem fbOpen_of_tried (a : FbAnswers) {s : Hooks} (h : s.fbTried = true) : fbOpen a s = s :=
  if_pos h

theorem fbOpen_tried (a : FbAnswers) (s : Hooks) : (fbOpen a s).fbTried = true := by
  unfold fbOpen
  split
  · assumption
  · rfl

theorem patchPost_tried (a : FbAnswers) (dev : Option Nat) (s : Hooks) :
    (patchPost a dev s).fbTried = true := by
  have htried := fbOpen_tried a s
  unfold patchPost
  generalize fbOpen a s = s' at htried
  dsimp only
  repeat' split
  all_goals exact htried

/-- A patched device is left alone, whatever the kernel answers. -/
theorem patchPost_patched {a : FbAnswers} {dev : Nat} {s : Hooks} (htried : s.fbTried = true)
    (h : ∀ v, s.devs dev = some v → v.post = .overlay) : patchPost a (some dev) s = s := by
  rw [patchPost_not, fbOpen_of_tried a htried]
  intro n v hn htakes
  obtain rfl := Option.some.inj hn
  exact htakes.2.1 (h v htakes.1)

/-- Patching a device twice is patching it once. -/
theorem patchPost_idem (a : FbAnswers) (dev : Nat) (s : Hooks) :
    patchPost a (some dev) (patchPost a (some dev) s) = patchPost a (some dev) s := by
  by_cases h : ∃ v, Takes a dev s v
  · obtain ⟨v, hv⟩ := h
    apply patchPost_patched (patchPost_tried a (some dev) s)
    intro v' hv'
    rw [(patchPost_takes hv).2, Function.update_self] at hv'
    rw [← Option.some.inj hv']
  · have hnot : ∀ n v, some dev = some n → ¬Takes a n s v := by
      intro n v hn htakes
      obtain rfl := Option.some.inj hn
      exact h ⟨v, htakes⟩
    rw [patchPost_not hnot, patchPost_not, fbOpen_of_tried a (fbOpen_tried a s)]
    intro n v hn htakes
    refine hnot n v hn ⟨?_, htakes.2.1, ?_, htakes.2.2.2⟩
    · rw [← fbOpen_devs a s]
      exact htakes.1
    · rw [← fbOpen_of_tried a (fbOpen_tried a s)]
      exact htakes.2.2.1

/-! ### One step -/

theorem KeepsOwn.of_same {s s' : Hooks} (hdevs : s'.devs = s.devs)
    (hreal : s'.realPost = s.realPost) : s'.KeepsOwn ↔ s.KeepsOwn := by
  unfold KeepsOwn
  rw [hdevs, hreal]

theorem Plain.of_same {s s' : Hooks} (hs : s.Plain) (hdevs : s'.devs = s.devs) : s'.Plain := by
  unfold Plain
  rw [hdevs]
  exact hs

theorem Plain.patchPost {s : Hooks} (hs : s.Plain) (a : FbAnswers) (dev : Option Nat) :
    (patchPost a dev s).Plain := by
  by_cases h : ∃ n v, dev = some n ∧ Takes a n s v
  · obtain ⟨n, v, rfl, hv⟩ := h
    intro dev' v' hv'
    rw [(patchPost_takes hv).2] at hv'
    by_cases hdev : dev' = n
    · rw [hdev, Function.update_self] at hv'
      rw [← Option.some.inj hv']
      exact .inr rfl
    · rw [Function.update_of_ne hdev] at hv'
      exact hs dev' v' hv'
  · rw [patchPost_not fun n v hn htakes => h ⟨n, v, hn, htakes⟩]
    exact hs.of_same (fbOpen_devs a s)

/-- A patch keeps every patched device's own function exactly when the others agree. -/
theorem keepsOwn_patchPost {s : Hooks} (hplain : s.Plain) (hs : s.KeepsOwn) (a : FbAnswers)
    (dev : Nat) : (patchPost a (some dev) s).KeepsOwn ↔ PatchAgrees a dev s := by
  by_cases h : ∃ v, Takes a dev s v
  · obtain ⟨v, hv⟩ := h
    have hown : v.post = .original v.own := (hplain dev v hv.1).resolve_right hv.2.1
    obtain ⟨hreal, hdevs⟩ := patchPost_takes hv
    have hpatched : (patchPost a (some dev) s).KeepsOwn ↔ s.Agrees dev v.own := by
      unfold KeepsOwn Agrees
      rw [hreal, hdevs, hown]
      constructor
      · intro hkeeps dev' v' hdev hv' hpost
        have hsame := hkeeps dev' v' (by rw [Function.update_of_ne hdev, hv']) hpost
        rw [Option.some.injEq, PostFn.original.injEq] at hsame
        exact hsame.symm
      · intro hagrees dev' v' hv' hpost
        by_cases hdev : dev' = dev
        · rw [hdev, Function.update_self] at hv'
          rw [← Option.some.inj hv']
        · rw [Function.update_of_ne hdev] at hv'
          rw [hagrees dev' v' hdev hv' hpost]
    rw [hpatched]
    constructor
    · intro hagrees v' hv'
      have hsame : v = v' := Option.some.inj (hv.1.symm.trans hv'.1)
      rw [← hsame]
      exact hagrees
    · intro hagrees
      exact hagrees v hv
  · have hnot : ∀ n v, some dev = some n → ¬Takes a n s v := by
      intro n v hn htakes
      obtain rfl := Option.some.inj hn
      exact h ⟨v, htakes⟩
    rw [patchPost_not hnot, KeepsOwn.of_same (fbOpen_devs a s) (fbOpen_realPost a s)]
    exact ⟨fun _ v hv => absurd ⟨v, hv⟩ h, fun _ => hs⟩

theorem keepsOwn_update {s : Hooks} (hs : s.KeepsOwn) (dev : Nat) {v : Option FbDevice}
    (hv : ∀ w, v = some w → w.post ≠ .overlay) :
    KeepsOwn { s with devs := Function.update s.devs dev v } := by
  intro dev' v' hv' hpost
  dsimp only at hv'
  by_cases hdev : dev' = dev
  · rw [hdev, Function.update_self] at hv'
    exact absurd hpost (hv v' hv')
  · rw [Function.update_of_ne hdev] at hv'
    exact hs dev' v' hv' hpost

theorem plain_update {s : Hooks} (hs : s.Plain) (dev : Nat) {v : Option FbDevice}
    (hv : ∀ w, v = some w → w.post = .original w.own) :
    Plain { s with devs := Function.update s.devs dev v } := by
  intro dev' v' hv'
  dsimp only at hv'
  by_cases hdev : dev' = dev
  · rw [hdev, Function.update_self] at hv'
    exact .inl (hv v' hv')
  · rw [Function.update_of_ne hdev] at hv'
    exact hs dev' v' hv'

theorem postTo_devs (dev : Nat) (p : Post) (s : Hooks) :
    (postTo K d dev p s).devs = s.devs ∧ (postTo K d dev p s).realPost = s.realPost := by
  unfold postTo
  split <;> exact ⟨rfl, rfl⟩

/-- What `a1000_zc_hook_fb` may do to the devices: nothing, or a patch. -/
theorem zcHookFb_cases (a : HookAnswers) (dev : Option Nat) (s : Hooks) :
    (¬(s.zc = some true ∨ (s.zc = none ∧ a.zerocopy)) ∨ dev = none) ∧
        (zcHookFb a dev s).devs = s.devs ∧ (zcHookFb a dev s).realPost = s.realPost ∨
      (s.zc = some true ∨ (s.zc = none ∧ a.zerocopy)) ∧ ∃ n s', dev = some n ∧
        s'.devs = s.devs ∧ s'.realPost = s.realPost ∧
        (∀ v, Takes a.fb n s' v ↔ Takes a.fb n s v) ∧
        (zcHookFb a dev s).devs = (patchPost a.fb (some n) s').devs ∧
        (zcHookFb a dev s).realPost = (patchPost a.fb (some n) s').realPost := by
  unfold zcHookFb
  by_cases hearly : s.zc = some false ∨ (s.zc = some true ∧ s.hooked ∧ dev = none)
  · rw [if_pos hearly]
    refine .inl ⟨?_, rfl, rfl⟩
    obtain hoff | hlazy := hearly
    · exact .inl (by simp [hoff])
    · exact .inr hlazy.2.2
  rw [if_neg hearly]
  by_cases hoff : s.zc = none ∧ a.zerocopy = false
  · rw [if_pos hoff]
    exact .inl ⟨.inl (by simp [hoff]), rfl, rfl⟩
  rw [if_neg hoff]
  have hgo : s.zc = some true ∨ (s.zc = none ∧ a.zerocopy) := by
    cases hzc : s.zc with
    | none => simpa [hzc] using hoff
    | some on =>
        cases on with
        | false => exact absurd (.inl hzc) hearly
        | true => exact .inl rfl
  cases dev with
  | none =>
      refine .inl ⟨.inr rfl, ?_, ?_⟩
      · dsimp only [patchPost]
        rw [fbOpen_devs]
        split <;> rfl
      · dsimp only [patchPost]
        rw [fbOpen_realPost]
        split <;> rfl
  | some n =>
      refine .inr ⟨hgo, n, _, rfl, ?_, ?_, ?_, rfl, rfl⟩
      · split <;> rfl
      · split <;> rfl
      · intro v
        unfold Takes fbOpen
        split <;> cases s.fbTried <;> rfl

theorem plain_step {s : Hooks} (hs : s.Plain) (e : Event) : (step K d s e).Plain := by
  cases e with
  | opened dev own through a =>
      have hopened : (s.gralloc dev own).Plain := plain_update hs dev fun w hw => by
        rw [← Option.some.inj hw]
      show Plain (if through ∧ s.hooked then patchPost a (some dev) (s.gralloc dev own)
        else s.gralloc dev own)
      split
      · exact hopened.patchPost a (some dev)
      · exact hopened
  | closed dev => exact plain_update hs dev (v := none) fun w hw => by cases hw
  | zcHook dev a =>
      obtain ⟨-, hdevs, -⟩ | ⟨-, n, s', -, hdevs', -, -, hdevs, -⟩ := zcHookFb_cases a dev s
      · exact hs.of_same hdevs
      · exact ((hs.of_same hdevs').patchPost a.fb (some n)).of_same hdevs
  | getModule factory => exact hs
  | post dev p => exact hs.of_same (postTo_devs dev p s).1
  | op op => exact hs

theorem keepsOwn_step {s : Hooks} (hplain : s.Plain) (hs : s.KeepsOwn) (e : Event) :
    (step K d s e).KeepsOwn ↔ s.StepAgrees e := by
  cases e with
  | opened dev own through a =>
      have hopenedPlain : (s.gralloc dev own).Plain := plain_update hplain dev fun w hw => by
        rw [← Option.some.inj hw]
      have hopened : (s.gralloc dev own).KeepsOwn := keepsOwn_update hs dev fun w hw => by
        rw [← Option.some.inj hw]
        exact PostFn.noConfusion
      show KeepsOwn (if through ∧ s.hooked then patchPost a (some dev) (s.gralloc dev own)
        else s.gralloc dev own) ↔ _
      split
      · rename_i hgo
        rw [keepsOwn_patchPost hopenedPlain hopened a dev]
        exact ⟨fun h _ _ => h, fun h => h hgo.1 hgo.2⟩
      · rename_i hstop
        exact ⟨fun _ hthrough hhooked => absurd ⟨hthrough, hhooked⟩ hstop, fun _ => hopened⟩
  | closed dev =>
      exact ⟨fun _ => trivial, fun _ => keepsOwn_update hs dev (v := none) fun w hw => by cases hw⟩
  | zcHook dev a =>
      have hcases := zcHookFb_cases a dev s
      obtain ⟨hno, hdevs, hreal⟩ | ⟨hgo, n, s', rfl, hdevs', hreal', htakes, hdevs, hreal⟩ := hcases
      · have hkeeps : (step K d s (.zcHook dev a)).KeepsOwn := (KeepsOwn.of_same hdevs hreal).2 hs
        refine ⟨fun _ => ?_, fun _ => hkeeps⟩
        cases dev with
        | none => trivial
        | some n =>
            intro hgo
            obtain hno | hnone := hno
            · exact absurd hgo hno
            · cases hnone
      · have hkeeps : (step K d s (.zcHook (some n) a)).KeepsOwn ↔
            (patchPost a.fb (some n) s').KeepsOwn := KeepsOwn.of_same hdevs hreal
        rw [hkeeps, keepsOwn_patchPost (hplain.of_same hdevs')
          ((KeepsOwn.of_same hdevs' hreal').2 hs) a.fb n]
        unfold StepAgrees PatchAgrees Agrees
        simp only [htakes, hdevs']
        exact ⟨fun h _ => h, fun h => h hgo⟩
  | getModule factory => exact ⟨fun _ => trivial, fun _ => hs⟩
  | post dev p =>
      obtain ⟨hdevs, hreal⟩ := postTo_devs dev p s
      exact ⟨fun _ => trivial, fun _ => (KeepsOwn.of_same hdevs hreal).2 hs⟩
  | op op => exact ⟨fun _ => trivial, fun _ => hs⟩

/-! ### Runs -/

/-- In every run, whatever is posted in whichever state, a fallback calls exactly the device's own
function, and patching twice is patching once, if and only if no step patches a device that came
with another function than the patched devices still open. -/
theorem callsOwn_iff_stepAgrees (fb : Fb) (dispc : Dispc.State) (events : List Event) :
    (Always (step K d) (CallsOwn K d) (start fb dispc) events ∧
      ∀ a dev s, patchPost a (some dev) (patchPost a (some dev) s) = patchPost a (some dev) s) ↔
    EachStep (step K d) StepAgrees (start fb dispc) events := by
  have hstart : (start fb dispc).Plain ∧ (start fb dispc).KeepsOwn := by
    refine ⟨fun dev v hv => ?_, fun dev v hv => ?_⟩ <;> cases hv
  have hruns : Always (step K d) (CallsOwn K d) (start fb dispc) events ↔
      EachStep (step K d) StepAgrees (start fb dispc) events := by
    refine always_iff_eachStep_of_invariant (P := fun s => s.Plain ∧ s.KeepsOwn) ?_ ?_ ?_ hstart
    · intro s e hs hagrees
      exact ⟨plain_step hs.1 e, (keepsOwn_step hs.1 hs.2 e).2 hagrees⟩
    · intro s e hs hcalls
      exact (keepsOwn_step hs.1 hs.2 e).1 (callsOwn_iff.1 hcalls)
    · intro s hs
      exact callsOwn_iff.2 hs.2
  rw [hruns]
  exact and_iff_left patchPost_idem

/-- Two devices of different make, opened one after the other. -/
def twoDevices : List Event :=
  [.getModule true, .opened 0 7 true ⟨true, some (480, 800)⟩,
    .opened 1 8 true ⟨true, some (480, 800)⟩]

/-- A buffer ION does not know. -/
def foreignPost : Post :=
  ⟨firstBuffer, none, none, .done, [], none, .done, [], none, .done, .prompt, 0⟩

/-- The first device's frame goes to the second device's function. -/
theorem called_other :
    ((final (step Dispc.headerConst Dispc.dpiPanel) (start (patchedFb true) Dispc.runningPanel)
        twoDevices).devs 0).map FbDevice.own = some 7 ∧
      (final (step Dispc.headerConst Dispc.dpiPanel) (start (patchedFb true) Dispc.runningPanel)
        twoDevices).called Dispc.headerConst Dispc.dpiPanel 0 foreignPost = [.original 8] := by
  decide

end Hooks

end LineageA1000.Shim
