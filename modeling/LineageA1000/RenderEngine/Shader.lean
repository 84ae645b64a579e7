import Mathlib.Data.List.Basic

/-!
# Shaders

`ProgramCache.cpp`: from a layer's description to the key of its program, and from the key to the
program's two shaders. The key holds all that the generator looks at but one thing: the order of the
colour channels, which it reads from a property while it generates. The GLSL functions that the
generator copies in whole stand for themselves, in a table from their names to their texts.
-/

namespace LineageA1000.RenderEngine

/-! ### Keys -/

/-- `ProgramCache::Key`. -/
structure Key where
  mKey : BitVec 32
  deriving DecidableEq

namespace Key

def blendMask : BitVec 32 := 1
def blendPremult : BitVec 32 := 1
def blendNormal : BitVec 32 := 0

def opacityMask : BitVec 32 := 1 <<< 1
def opacityOpaque : BitVec 32 := 1 <<< 1
def opacityTranslucent : BitVec 32 := 0

def alphaMask : BitVec 32 := 1 <<< 2
def alphaLtOne : BitVec 32 := 1 <<< 2
def alphaEqOne : BitVec 32 := 0

def textureMask : BitVec 32 := 3 <<< 3
def textureOff : BitVec 32 := 0
def textureExt : BitVec 32 := 1 <<< 3
def texture2d : BitVec 32 := 2 <<< 3

def roundedCornersMask : BitVec 32 := 1 <<< 5
def roundedCornersOff : BitVec 32 := 0
def roundedCornersOn : BitVec 32 := 1 <<< 5

def inputTransformMatrixMask : BitVec 32 := 1 <<< 6
def inputTransformMatrixOff : BitVec 32 := 0
def inputTransformMatrixOn : BitVec 32 := 1 <<< 6

def outputTransformMatrixMask : BitVec 32 := 1 <<< 7
def outputTransformMatrixOff : BitVec 32 := 0
def outputTransformMatrixOn : BitVec 32 := 1 <<< 7

def inputTfMask : BitVec 32 := 3 <<< 8
def inputTfLinear : BitVec 32 := 0
def inputTfSrgb : BitVec 32 := 1 <<< 8
def inputTfSt2084 : BitVec 32 := 2 <<< 8
def inputTfHlg : BitVec 32 := 3 <<< 8

def outputTfMask : BitVec 32 := 3 <<< 10
def outputTfLinear : BitVec 32 := 0
def outputTfSrgb : BitVec 32 := 1 <<< 10
def outputTfSt2084 : BitVec 32 := 2 <<< 10
def outputTfHlg : BitVec 32 := 3 <<< 10

def y410Bt2020Mask : BitVec 32 := 1 <<< 12
def y410Bt2020Off : BitVec 32 := 0
def y410Bt2020On : BitVec 32 := 1 <<< 12

def swizzleMask : BitVec 32 := 1 <<< 13
def swizzleOff : BitVec 32 := 0
def swizzleOn : BitVec 32 := 1 <<< 13

def empty : Key := ⟨0⟩

def set (mask value : BitVec 32) (k : Key) : Key := ⟨(k.mKey &&& ~~~mask) ||| value⟩

def isTexturing (k : Key) : Bool := k.mKey &&& textureMask ≠ textureOff
def getTextureTarget (k : Key) : BitVec 32 := k.mKey &&& textureMask
def isPremultiplied (k : Key) : Bool := k.mKey &&& blendMask = blendPremult
def isOpaque (k : Key) : Bool := k.mKey &&& opacityMask = opacityOpaque
def hasAlpha (k : Key) : Bool := k.mKey &&& alphaMask = alphaLtOne
def hasRoundedCorners (k : Key) : Bool := k.mKey &&& roundedCornersMask = roundedCornersOn
def hasInputTransformMatrix (k : Key) : Bool :=
  k.mKey &&& inputTransformMatrixMask = inputTransformMatrixOn
def hasOutputTransformMatrix (k : Key) : Bool :=
  k.mKey &&& outputTransformMatrixMask = outputTransformMatrixOn
def hasTransformMatrix (k : Key) : Bool := k.hasInputTransformMatrix || k.hasOutputTransformMatrix
def getInputTf (k : Key) : BitVec 32 := k.mKey &&& inputTfMask
def getOutputTf (k : Key) : BitVec 32 := k.mKey &&& outputTfMask
def hasSwizzle (k : Key) : Bool := k.mKey &&& swizzleMask = swizzleOn
def isY410Bt2020 (k : Key) : Bool := k.mKey &&& y410Bt2020Mask = y410Bt2020On

def needsToneMapping (k : Key) : Bool :=
  if k.getInputTf = inputTfSrgb ∧ k.getOutputTf = outputTfLinear then false
  else if k.getInputTf = inputTfLinear ∧ k.getOutputTf = outputTfSrgb then false
  else k.getInputTf >>> 8 ≠ k.getOutputTf >>> 10

/-- The condition under which colours are converted. -/
def convertsColors (k : Key) : Bool := k.hasTransformMatrix || k.getInputTf ≠ k.getOutputTf

end Key

/-! ### Descriptions -/

inductive TransferFunction where
  | linear
  | srgb
  | st2084
  | hlg
  deriving DecidableEq

def glTextureExternalOes : Nat := 0x8D65

def glTexture2d : Nat := 0x0DE1

/-- What `computeKey` reads of a `Description`. -/
structure Description where
  textureEnabled : Bool
  textureTarget : Nat
  /-- `color.a < 1`. -/
  colorALtOne : Bool
  isPremultipliedAlpha : Bool
  isOpaque : Bool
  hasInputTransformMatrix : Bool
  hasOutputTransformMatrix : Bool
  hasColorMatrix : Bool
  /-- `cornerRadius > 0`. -/
  cornerRadiusPos : Bool
  isY410Bt2020 : Bool
  inputTransferFunction : TransferFunction
  outputTransferFunction : TransferFunction
  deriving DecidableEq

/-- `computeKey`; `swizzleEnabled` is `gA1000Swizzle`. -/
def computeKey (swizzleEnabled : Bool) (d : Description) : Key :=
  let needs := Key.empty
    |>.set Key.textureMask
      (if !d.textureEnabled then Key.textureOff
      else if d.textureTarget = glTextureExternalOes then Key.textureExt
      else if d.textureTarget = glTexture2d then Key.texture2d
      else Key.textureOff)
    |>.set Key.alphaMask (if d.colorALtOne then Key.alphaLtOne else Key.alphaEqOne)
    |>.set Key.blendMask (if d.isPremultipliedAlpha then Key.blendPremult else Key.blendNormal)
    |>.set Key.opacityMask (if d.isOpaque then Key.opacityOpaque else Key.opacityTranslucent)
    |>.set Key.inputTransformMatrixMask
      (if d.hasInputTransformMatrix then Key.inputTransformMatrixOn
      else Key.inputTransformMatrixOff)
    |>.set Key.outputTransformMatrixMask
      (if d.hasOutputTransformMatrix || d.hasColorMatrix then Key.outputTransformMatrixOn
      else Key.outputTransformMatrixOff)
    |>.set Key.roundedCornersMask
      (if d.cornerRadiusPos then Key.roundedCornersOn else Key.roundedCornersOff)
    |>.set Key.y410Bt2020Mask (if d.isY410Bt2020 then Key.y410Bt2020On else Key.y410Bt2020Off)
    |>.set Key.swizzleMask (if swizzleEnabled then Key.swizzleOn else Key.swizzleOff)
  if needs.hasTransformMatrix ∨ d.inputTransferFunction ≠ d.outputTransferFunction then
    needs
      |>.set Key.inputTfMask
        (match d.inputTransferFunction with
        | .linear => Key.inputTfLinear
        | .srgb => Key.inputTfSrgb
        | .st2084 => Key.inputTfSt2084
        | .hlg => Key.inputTfHlg)
      |>.set Key.outputTfMask
        (match d.outputTransferFunction with
        | .linear => Key.outputTfLinear
        | .srgb => Key.outputTfSrgb
        | .st2084 => Key.outputTfSt2084
        | .hlg => Key.outputTfHlg)
  else needs

/-! ### The formatter -/

/-- The GLSL functions that are copied in whole. -/
inductive Snippet where
  | applyCornerRadius
  | convertY410Bt2020
  | inputTransformMatrix
  | inputTransformIdentity
  | outputTransformMatrix
  | outputTransformClamp
  | eotfSrgb
  | eotfSt2084
  | eotfHlg
  | eotfLinear
  | scaleLuminanceSt2084
  | scaleLuminanceHlg
  | scaleLuminanceDisplay
  | toneMapToHlg
  | toneMapToSt2084
  | toneMapToDisplay
  | toneMapInverse
  | normalizeLuminanceSt2084
  | normalizeLuminanceHlg
  | normalizeLuminanceDisplay
  | ootfIdentity
  | ootfToneMapping
  | oetfSrgb
  | oetfSt2084
  | oetfHlg
  | oetfLinear

/-- What is passed to a `Formatter`. -/
inductive Item where
  | line (s : List Char)
  | snippet (s : Snippet)
  | indent
  | dedent

def text (s : String) : Item := .line s.toList

/-- A line at some depth. -/
def formatLine (depth : Nat) (s : List Char) : List Char :=
  List.replicate (4 * depth) ' ' ++ (s ++ ['\n'])

/-- What a `Formatter` at some depth makes of the items. -/
def format (glsl : Snippet → List Char) : Nat → List Item → List Char
  | _, [] => []
  | depth, .line s :: items => formatLine depth s ++ format glsl depth items
  | depth, .snippet s :: items => formatLine depth (glsl s) ++ format glsl depth items
  | depth, .indent :: items => format glsl (depth + 1) items
  | depth, .dedent :: items => format glsl (depth - 1) items

/-- The depth that the items leave behind. -/
def depthAfter : Nat → List Item → Nat
  | depth, [] => depth
  | depth, .line _ :: items => depthAfter depth items
  | depth, .snippet _ :: items => depthAfter depth items
  | depth, .indent :: items => depthAfter (depth + 1) items
  | depth, .dedent :: items => depthAfter (depth - 1) items

theorem formatLine_inj {depth : Nat} {s s' : List Char} :
    formatLine depth s = formatLine depth s' ↔ s = s' := by
  rw [formatLine, formatLine, List.append_cancel_left_eq, List.append_cancel_right_eq]

theorem formatLine_ne_nil (depth : Nat) (s : List Char) : formatLine depth s ≠ [] := by
  intro h
  obtain ⟨-, htail⟩ := List.append_eq_nil_iff.1 h
  obtain ⟨-, hnewline⟩ := List.append_eq_nil_iff.1 htail
  exact absurd hnewline (List.cons_ne_nil _ _)

theorem format_append (glsl : Snippet → List Char) (depth : Nat) (items items' : List Item) :
    format glsl depth (items ++ items') =
      format glsl depth items ++ format glsl (depthAfter depth items) items' := by
  induction items generalizing depth with
  | nil => rfl
  | cons item items ih =>
      cases item <;>
        simp only [List.cons_append, format, depthAfter, ih, List.append_assoc]

/-! ### The generators -/

namespace Key

def generateEotf (needs : Key) : List Item :=
  if needs.getInputTf = inputTfSrgb then [.snippet .eotfSrgb]
  else if needs.getInputTf = inputTfSt2084 then [.snippet .eotfSt2084]
  else if needs.getInputTf = inputTfHlg then [.snippet .eotfHlg]
  else [.snippet .eotfLinear]

def generateToneMappingProcess (needs : Key) : List Item :=
  (if needs.getInputTf = inputTfSt2084 then [.snippet .scaleLuminanceSt2084]
  else if needs.getInputTf = inputTfHlg then [.snippet .scaleLuminanceHlg]
  else [.snippet .scaleLuminanceDisplay]) ++
  (if needs.getInputTf = inputTfSt2084 ∨ needs.getInputTf = inputTfHlg then
    if needs.getOutputTf = outputTfHlg then [.snippet .toneMapToHlg]
    else if needs.getOutputTf = outputTfSt2084 then [.snippet .toneMapToSt2084]
    else [.snippet .toneMapToDisplay]
  else [.snippet .toneMapInverse]) ++
  (if needs.getOutputTf = outputTfSt2084 then [.snippet .normalizeLuminanceSt2084]
  else if needs.getOutputTf = outputTfHlg then [.snippet .normalizeLuminanceHlg]
  else [.snippet .normalizeLuminanceDisplay])

def generateOotf (needs : Key) : List Item :=
  if !needs.needsToneMapping then [.snippet .ootfIdentity]
  else needs.generateToneMappingProcess ++ [.snippet .ootfToneMapping]

def generateOetf (needs : Key) : List Item :=
  if needs.getOutputTf = outputTfSrgb then [.snippet .oetfSrgb]
  else if needs.getOutputTf = outputTfSt2084 then [.snippet .oetfSt2084]
  else if needs.getOutputTf = outputTfHlg then [.snippet .oetfHlg]
  else [.snippet .oetfLinear]

/-- The items of `generateVertexShader`. -/
def vertexItems (needs : Key) : List Item :=
  (if needs.isTexturing then
    [text "attribute vec4 texCoords;", text "varying vec2 outTexCoords;"] else []) ++
  (if needs.hasRoundedCorners then
    [text "attribute lowp vec4 cropCoords;", text "varying lowp vec2 outCropCoords;"] else []) ++
  [text "attribute vec4 position;", text "uniform mat4 projection;", text "uniform mat4 texture;",
    text "void main(void) \x7b", .indent, text "gl_Position = projection * position;"] ++
  (if needs.isTexturing then [text "outTexCoords = (texture * texCoords).st;"] else []) ++
  (if needs.hasRoundedCorners then [text "outCropCoords = cropCoords.st;"] else []) ++
  [.dedent, text "\x7d"]

/-- What stands before `main` in the fragment shader. -/
def declarationItems (needs : Key) : List Item :=
  (if needs.getTextureTarget = textureExt then
    [text "#extension GL_OES_EGL_image_external : require"] else []) ++
  [text "precision mediump float;"] ++
  (if needs.getTextureTarget = textureExt then
    [text "uniform samplerExternalOES sampler;", text "varying vec2 outTexCoords;"]
  else if needs.getTextureTarget = texture2d then
    [text "uniform sampler2D sampler;", text "varying vec2 outTexCoords;"]
  else []) ++
  (if needs.hasRoundedCorners then [.snippet .applyCornerRadius] else []) ++
  (if needs.getTextureTarget = textureOff || needs.hasAlpha then
    [text "uniform vec4 color;"] else []) ++
  (if needs.isY410Bt2020 then [.snippet .convertY410Bt2020] else []) ++
  (if needs.convertsColors then
    (if needs.needsToneMapping then [text "uniform float displayMaxLuminance;"] else []) ++
    (if needs.hasInputTransformMatrix then
      [text "uniform mat4 inputTransformMatrix;", .snippet .inputTransformMatrix]
    else [.snippet .inputTransformIdentity]) ++
    (if needs.hasOutputTransformMatrix then
      [text "uniform mat4 outputTransformMatrix;", .snippet .outputTransformMatrix]
    else [.snippet .outputTransformClamp]) ++
    needs.generateEotf ++ needs.generateOotf ++ needs.generateOetf
  else [])

/-- The body of `main` up to the order of the channels. -/
def mainItems (needs : Key) : List Item :=
  [text "void main(void) \x7b", .indent] ++
  (if needs.isTexturing then
    text "gl_FragColor = texture2D(sampler, outTexCoords);" ::
      (if needs.isY410Bt2020 then
        [text "gl_FragColor.rgb = convertY410BT2020(gl_FragColor.rgb);"] else [])
  else [text "gl_FragColor.rgb = color.rgb;", text "gl_FragColor.a = 1.0;"]) ++
  (if needs.isOpaque then [text "gl_FragColor.a = 1.0;"] else []) ++
  (if needs.hasAlpha then
    if needs.isPremultiplied then [text "gl_FragColor *= color.a;"]
    else [text "gl_FragColor.a *= color.a;"]
  else []) ++
  (if needs.convertsColors then
    (if !needs.isOpaque && needs.isPremultiplied then
      [text "gl_FragColor.rgb = gl_FragColor.rgb / (gl_FragColor.a + 0.0019);"] else []) ++
    [text ("gl_FragColor.rgb = " ++
      "OETF(OutputTransform(OOTF(InputTransform(EOTF(gl_FragColor.rgb)))));")] ++
    (if !needs.isOpaque && needs.isPremultiplied then
      [text "gl_FragColor.rgb = gl_FragColor.rgb * (gl_FragColor.a + 0.0019);"] else [])
  else []) ++
  (if needs.hasRoundedCorners then
    if needs.isPremultiplied then
      [text "gl_FragColor *= vec4(applyCornerRadius(outCropCoords));"]
    else [text "gl_FragColor.a *= applyCornerRadius(outCropCoords);"]
  else [])

end Key

/-! ### The order of the channels -/

/-- The order of the channels under a value of `debug.sf.swz`; a property that is not set has the
value `[]`. -/
def swizzleOf (property : List Char) : List Char :=
  let swz := if property = [] then "brg".toList else property
  if swz.length = 3 ∧ swz.all fun c => c = 'r' ∨ c = 'g' ∨ c = 'b' then swz else "brg".toList

/-- The lines that put the channels in order. -/
def swizzleItems (swz : List Char) : List Item :=
  if swz = "rgb".toList then []
  else [.line ("gl_FragColor.rgb = gl_FragColor.".toList ++ (swz ++ ";".toList))]

/-- Two orders give the same lines only if they are the same. -/
theorem format_swizzleItems_inj (glsl : Snippet → List Char) {depth : Nat} {swz swz' : List Char} :
    format glsl depth (swizzleItems swz) = format glsl depth (swizzleItems swz') ↔
      swz = swz' := by
  constructor
  · intro h
    unfold swizzleItems at h
    split at h
    · rename_i hrgb
      split at h
      · rename_i hrgb'
        rw [hrgb, hrgb']
      · exact absurd (List.append_eq_nil_iff.1 h.symm).1 (formatLine_ne_nil _ _)
    · split at h
      · exact absurd (List.append_eq_nil_iff.1 h).1 (formatLine_ne_nil _ _)
      · have hline := formatLine_inj.1 (List.append_cancel_right_eq .. ▸ h)
        rwa [List.append_cancel_left_eq, List.append_cancel_right_eq] at hline
  · intro h
    rw [h]

theorem depthAfter_swizzleItems (depth : Nat) (swz : List Char) :
    depthAfter depth (swizzleItems swz) = depth := by
  unfold swizzleItems
  split <;> rfl

theorem format_swizzleItems_append (glsl : Snippet → List Char) (depth : Nat)
    (before after : List Item) (swz : List Char) :
    format glsl depth (before ++ (swizzleItems swz ++ after)) =
      format glsl depth before ++ (format glsl (depthAfter depth before) (swizzleItems swz) ++
        format glsl (depthAfter depth before) after) := by
  rw [format_append, format_append, depthAfter_swizzleItems]

/-! ### Programs -/

/-- What a `Program` is made of. -/
structure Program where
  needs : Key
  vertex : List Char
  fragment : List Char
  deriving DecidableEq

section

variable (glsl : Snippet → List Char)

def generateVertexShader (needs : Key) : List Char := format glsl 0 needs.vertexItems

/-- `generateFragmentShader` under a value of `debug.sf.swz`. -/
def generateFragmentShader (needs : Key) (property : List Char) : List Char :=
  format glsl 0 (needs.declarationItems ++ needs.mainItems ++
    ((if needs.hasSwizzle then swizzleItems (swizzleOf property) else []) ++
      [.dedent, text "\x7d"]))

/-- `generateProgram` under a value of `debug.sf.swz`. -/
def generateProgram (needs : Key) (property : List Char) : Program where
  needs := needs
  vertex := generateVertexShader glsl needs
  fragment := generateFragmentShader glsl needs property

/-- A key whose program puts the channels in order gets one program for each order; any other key
gets the same program under every value. -/
theorem generateProgram_eq_iff {needs : Key} {property property' : List Char} :
    generateProgram glsl needs property = generateProgram glsl needs property' ↔
      (needs.hasSwizzle = true → swizzleOf property = swizzleOf property') := by
  rw [generateProgram, generateProgram, Program.mk.injEq]
  simp only [true_and]
  unfold generateFragmentShader
  cases needs.hasSwizzle with
  | false => simp only [Bool.false_eq_true, if_false, false_imp_iff]
  | true =>
      simp only [if_true, true_imp_iff]
      rw [format_swizzleItems_append, format_swizzleItems_append, List.append_cancel_left_eq,
        List.append_cancel_right_eq]
      exact format_swizzleItems_inj glsl

end

end LineageA1000.RenderEngine
