import LineageA1000.Lib.Memo
import LineageA1000.Lib.Run
import LineageA1000.RenderEngine.Shader

/-!
# The program cache

`ProgramCache::primeCache` and `useProgram`. A program is generated when its key first comes up in a
context and is never generated again, while `debug.sf.swz` may change at any time. The key says
whether the program puts the channels in order, but not in which order; so a change of the property
reaches the draws whose key is new and no others.
-/

namespace LineageA1000.RenderEngine

open Memo

/-! ### Keys that are primed -/

namespace Key

def primeMask : BitVec 32 :=
  blendMask ||| opacityMask ||| alphaMask ||| textureMask ||| roundedCornersMask

/-- The keys of the first loop of `primeCache`. -/
def primeKeys : List Key :=
  ((List.range (primeMask.toNat + 1)).map fun keyVal =>
    empty.set primeMask (BitVec.ofNat 32 keyVal)).filter fun shaderKey =>
      shaderKey.getTextureTarget = textureOff ∨ shaderKey.getTextureTarget = textureExt ∨
        shaderKey.getTextureTarget = texture2d

/-- The keys of the second loop: each pass sets the same four fields of one key anew. -/
def colorKeys : List Key :=
  let shaderKey := empty.set (blendMask ||| outputTransformMatrixMask ||| inputTfMask |||
      outputTfMask) (blendPremult ||| outputTransformMatrixOn ||| inputTfSrgb ||| outputTfSrgb)
  (List.range 16).map fun i => shaderKey
    |>.set opacityMask (if i.testBit 0 then opacityOpaque else opacityTranslucent)
    |>.set alphaMask (if i.testBit 1 then alphaLtOne else alphaEqOne)
    |>.set roundedCornersMask (if i.testBit 2 then roundedCornersOn else roundedCornersOff)
    |>.set textureMask (if i.testBit 3 then textureExt else textureOff)

/-! ### The bit of the key that asks for an order -/

theorem hasSwizzle_set {mask value : BitVec 32} (hmask : ~~~mask &&& swizzleMask = swizzleMask)
    (hvalue : value &&& swizzleMask = 0) (k : Key) :
    (k.set mask value).hasSwizzle = k.hasSwizzle := by
  have hkeep : ((k.mKey &&& ~~~mask) ||| value) &&& swizzleMask = k.mKey &&& swizzleMask := by
    rw [BitVec.and_or_distrib_right, BitVec.and_assoc, hmask, hvalue]
    exact BitVec.or_zero
  unfold hasSwizzle set
  rw [hkeep]

theorem hasSwizzle_set_swizzleMask (enabled : Bool) (k : Key) :
    (k.set swizzleMask (if enabled then swizzleOn else swizzleOff)).hasSwizzle = enabled := by
  have hread : ∀ value : BitVec 32, value &&& swizzleMask = value →
      ((k.mKey &&& ~~~swizzleMask) ||| value) &&& swizzleMask = value := by
    intro value hvalue
    rw [BitVec.and_or_distrib_right, BitVec.and_assoc, BitVec.not_and_self, hvalue]
    show k.mKey &&& 0#32 ||| value = value
    rw [BitVec.and_zero, BitVec.zero_or]
  unfold hasSwizzle set
  cases enabled <;> rw [hread _ (by decide)] <;> decide

/-- The key of a draw asks for an order exactly when the order is switched on. -/
theorem hasSwizzle_computeKey (enabled : Bool) (d : Description) :
    (computeKey enabled d).hasSwizzle = enabled := by
  have hfields : ∀ (c : Prop) [Decidable c] {k k' : Key}, k.hasSwizzle = enabled →
      k'.hasSwizzle = enabled → (if c then k else k').hasSwizzle = enabled := by
    intro c _ k k' hk hk'
    split
    · exact hk
    · exact hk'
  refine hfields _ ?_ (hasSwizzle_set_swizzleMask enabled _)
  exact (hasSwizzle_set (by decide) (by cases d.outputTransferFunction <;> decide) _).trans
    ((hasSwizzle_set (by decide) (by cases d.inputTransferFunction <;> decide) _).trans
      (hasSwizzle_set_swizzleMask enabled _))

end Key

/-! ### The cache -/

section

variable {Context : Type*} [DecidableEq Context]

/-- The cache, with the two settings that bear on it. -/
structure ProgramCache (Context : Type*) where
  /-- The value of `debug.sf.swz`; `[]` while it is not set. -/
  property : List Char
  /-- `gA1000Swizzle`. -/
  swizzleEnabled : Bool
  mCaches : Context × Key → Option Program

variable (glsl : Snippet → List Char) (isValid : Program → Bool)

/-- The cache once the key has a program in the context. -/
def emplace (context : Context) (s : ProgramCache Context) (key : Key) : ProgramCache Context :=
  { s with
    mCaches := ensure (fun entry => generateProgram glsl entry.2) s.property s.mCaches
      (context, key) }

/-- The keys that `primeCache` goes through. -/
def primed (useColorManagement : Bool) : List Key :=
  Key.primeKeys ++ if useColorManagement then Key.colorKeys else []

def primeCache (context : Context) (useColorManagement : Bool) (s : ProgramCache Context) :
    ProgramCache Context :=
  (primed useColorManagement).foldl (emplace glsl context) s

/-- `useProgram`, with the program that it binds; one that was not linked is not bound. -/
def useProgram (context : Context) (description : Description) (s : ProgramCache Context) :
    ProgramCache Context × Option Program :=
  let needs := computeKey s.swizzleEnabled description
  let s' := emplace glsl context s needs
  (s', (s'.mCaches (context, needs)).filter isValid)

inductive Event (Context : Type*) where
  | setProperty (value : List Char)
  | primeCache (context : Context) (useColorManagement : Bool)
  | setSwizzleEnabled (enabled : Bool)
  | useProgram (context : Context) (description : Description)

def next (s : ProgramCache Context) : Event Context → ProgramCache Context
  | .setProperty value => { s with property := value }
  | .primeCache context useColorManagement => primeCache glsl context useColorManagement s
  | .setSwizzleEnabled enabled => { s with swizzleEnabled := enabled }
  | .useProgram context description => (useProgram glsl isValid context description s).1

/-! ### The values that the programs were made under -/

/-- The keys that an event looks up, in order. -/
def lookups (s : ProgramCache Context) : Event Context → List (Context × Key)
  | .primeCache context useColorManagement =>
      (primed useColorManagement).map fun key => (context, key)
  | .useProgram context description => [(context, computeKey s.swizzleEnabled description)]
  | .setProperty _ | .setSwizzleEnabled _ => []

/-- A cache, with the value of the property at which each key first came up in each context. -/
structure Session (Context : Type*) where
  cache : ProgramCache Context
  made : Context × Key → Option (List Char)

def step (s : Session Context) (e : Event Context) : Session Context where
  cache := next glsl isValid s.cache e
  made := (lookups s.cache e).foldl (note s.cache.property) s.made

def start (property : List Char) : Session Context where
  cache := { property := property, swizzleEnabled := true, mCaches := fun _ => none }
  made := fun _ => none

theorem foldl_emplace (context : Context) (s : ProgramCache Context) (keys : List Key) :
    (keys.foldl (emplace glsl context) s).mCaches =
      (keys.map fun key => (context, key)).foldl
        (ensure (fun entry => generateProgram glsl entry.2) s.property) s.mCaches := by
  induction keys generalizing s with
  | nil => rfl
  | cons key keys ih => exact ih (emplace glsl context s key)

theorem next_mCaches (s : ProgramCache Context) (e : Event Context) :
    (next glsl isValid s e).mCaches =
      (lookups s e).foldl (ensure (fun entry => generateProgram glsl entry.2) s.property)
        s.mCaches := by
  cases e with
  | setProperty value | setSwizzleEnabled enabled => rfl
  | primeCache context useColorManagement => exact foldl_emplace glsl context s _
  | useProgram context description => rfl

/-- Every cached program was generated under the value noted for it. -/
def Noted (s : Session Context) : Prop :=
  Remembers (fun entry => generateProgram glsl entry.2) s.made s.cache.mCaches

theorem noted_step {s : Session Context} (h : Noted glsl s) (e : Event Context) :
    Noted glsl (step glsl isValid s e) := by
  have hall := h.ensureAll s.cache.property (lookups s.cache e)
  rw [← next_mCaches glsl isValid] at hall
  exact hall

/-! ### What a draw gets -/

/-- The program that a draw binds is the one that its key gets under the present value. -/
def Current (s : Session Context) : Event Context → Prop
  | .useProgram context description =>
      ∀ program, (useProgram glsl isValid context description s.cache).2 = some program →
        program = generateProgram glsl (computeKey s.cache.swizzleEnabled description)
          s.cache.property
  | .setProperty _ | .primeCache .. | .setSwizzleEnabled _ => True

/-- A draw that asks for an order finds no program of its key, one that was made under a value
that means the present order, or one that is not bound. -/
def Fresh (s : Session Context) : Event Context → Prop
  | .useProgram context description =>
      s.cache.swizzleEnabled = true →
        ∀ value, s.made (context, computeKey true description) = some value →
          isValid (generateProgram glsl (computeKey true description) value) = true →
            swizzleOf value = swizzleOf s.cache.property
  | .setProperty _ | .primeCache .. | .setSwizzleEnabled _ => True

theorem useProgram_snd {s : Session Context} (h : Noted glsl s) (context : Context)
    (description : Description) :
    (useProgram glsl isValid context description s.cache).2 =
      (some (generateProgram glsl (computeKey s.cache.swizzleEnabled description)
        ((s.made (context, computeKey s.cache.swizzleEnabled description)).getD
          s.cache.property))).filter isValid := by
  have hlookup := h.lookup s.cache.property
    (context, computeKey s.cache.swizzleEnabled description)
  exact congrArg (Option.filter isValid) hlookup

theorem current_iff {s : Session Context} (h : Noted glsl s) (e : Event Context) :
    Current glsl isValid s e ↔ Fresh glsl isValid s e := by
  cases e with
  | setProperty value | primeCache context useColorManagement | setSwizzleEnabled enabled =>
      exact Iff.rfl
  | useProgram context description =>
      simp only [Current, Fresh, useProgram_snd glsl isValid h, Option.filter_eq_some_iff,
        Option.some.injEq]
      constructor
      · intro hcurrent hon value hmade hvalid
        rw [hon, hmade] at hcurrent
        have hsame := (generateProgram_eq_iff glsl).1 (hcurrent _ ⟨rfl, hvalid⟩)
        exact hsame (Key.hasSwizzle_computeKey true description)
      · rintro hfresh program ⟨rfl, hvalid⟩
        rw [generateProgram_eq_iff, Key.hasSwizzle_computeKey]
        intro hon
        rw [hon] at hvalid ⊢
        cases hmade : s.made (context, computeKey true description) with
        | none => rfl
        | some value =>
            rw [hmade] at hvalid
            exact hfresh hon value hmade hvalid

/-- **The order is fixed when the key first comes up.** A run binds for each draw the program that
the present value asks for exactly when no draw finds a program made under a value that means
another order. -/
theorem current_iff_fresh (property : List Char) (events : List (Event Context)) :
    Run.EachStep (step glsl isValid) (Current glsl isValid) (start property) events ↔
      Run.EachStep (step glsl isValid) (Fresh glsl isValid) (start property) events :=
  Run.eachStep_iff_of_invariant (fun _ e h _ => noted_step glsl isValid h e)
    (fun _ e h => current_iff glsl isValid h e) (fun _ => rfl)

end

/-! ### A change that does not arrive -/

/-- An opaque layer with a texture of its own. -/
def opaqueLayer : Description where
  textureEnabled := true
  textureTarget := glTexture2d
  colorALtOne := false
  isPremultipliedAlpha := true
  isOpaque := true
  hasInputTransformMatrix := false
  hasOutputTransformMatrix := false
  hasColorMatrix := false
  cornerRadiusPos := false
  isY410Bt2020 := false
  inputTransferFunction := .linear
  outputTransferFunction := .linear

/-- The property is set to `rgb` between two draws of one layer: the second still gets the program
of the first, which puts the channels in the order `brg`. -/
theorem changed_order_is_not_drawn :
    ¬ Run.EachStep (step (fun _ => []) fun _ => true) (Current (fun _ => []) fun _ => true)
      (start [] : Session Unit)
      [.useProgram () opaqueLayer, .setProperty "rgb".toList, .useProgram () opaqueLayer] := by
  rintro ⟨-, -, hcurrent, -⟩
  have hsame := hcurrent _ rfl
  have horder := (generateProgram_eq_iff _).1 hsame (by decide)
  exact absurd horder (by decide)

end LineageA1000.RenderEngine
