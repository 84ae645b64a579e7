import LineageA1000.Shim.Interpose
import LineageA1000.Shim.PixelLoop

/-!
# Inside the mapping

The handlers of the hook map a buffer by its descriptor and walk over as many pixels as the argument
of the ioctl says. `handle_osd` maps the length recorded with the address, `handle_layer` four bytes
a pixel, and both lengths are 32-bit numbers. Here each handler runs over what `mmap` gave it, so
that a walk past the end shows as a fault.
-/

namespace LineageA1000.Shim

open Dispc (OverlayInfo)

/-- What `mmap` answers for a descriptor and a length. A mapping has the length asked for, and there
is none of length zero. -/
structure Mmap where
  map : Int → Word → Option (List Byte)
  length_eq {fd : Int} {len : Word} {m : List Byte} : map fd len = some m → m.length = len.toNat
  zero (fd : Int) : map fd 0 = none

/-! ### The handlers over what they map -/

/-- `npix` of `handle_osd`. -/
def osdNpix (o : OverlayInfo) : Word := o.rect.w.setWidth 32 * o.rect.h.setWidth 32

/-- The length `handle_osd` maps: the recorded one where there is one. -/
def osdLen (o : OverlayInfo) (e : PhysEntry) : Word := if e.len ≠ 0 then e.len else osdNpix o * 4

def layerNpix (l : GspLayer) : Word := l.pitch * l.rectH.setWidth 32

def layerLen (l : GspLayer) : Word := layerNpix l * 4

/-- Hashing a mapping and, where the hash is not the one left behind, rotating it. -/
def rotateMapped (fuel : Nat) (fd : Int) (m : List Byte) (npix : Word) (t : FdMap) :
    Walk (FdMap × List Byte) :=
  let (j, t) := fdSlot fd t
  (processWalk fuel m npix false).bind fun (h, m) =>
    if (t.entries j).hash = h then .done (t, m)
    else
      (processWalk fuel m npix true).bind fun (h, m) =>
        .done ({ t with entries := Function.update t.entries j ⟨(t.entries j).fd, h⟩ }, m)

/-- A handler that could not map returns. -/
def walkMapped (fuel : Nat) (mmap : Mmap) (fd : Int) (len npix : Word) (t : FdMap) : Walk FdMap :=
  match mmap.map fd len with
  | none => .done t
  | some m => (rotateMapped fuel fd m npix t).bind fun (t, _) => .done t

/-- The entry through which `handle_osd` reaches the presented buffer, where it gets so far. -/
def osdEntry (o : OverlayInfo) (p : Process) : Option PhysEntry :=
  if osdEligible o ∧ p.mode = .cpu then
    match findPhys (osdArg p.pin p.mode o).2.buffer p.physMap with
    | none => none
    | some i =>
        if (p.physMap.entries i).fd < 0 then none else some (p.physMap.entries i)
  else none

/-- `handle_osd`. -/
def handleOsdMapped (fuel : Nat) (mmap : Mmap) (o : OverlayInfo) (p : Process) : Walk FdMap :=
  match osdEntry o p with
  | none => .done p.fdMap
  | some e => walkMapped fuel mmap e.fd (osdLen o e) (osdNpix o) p.fdMap

/-- `handle_layer`. -/
def handleLayerMapped (fuel : Nat) (mmap : Mmap) (l : GspLayer) (t : FdMap) : Walk FdMap :=
  if gspEligible l then walkMapped fuel mmap l.shareFd (layerLen l) (layerNpix l) t else .done t

/-- The requests the hook looks at, and the others. -/
inductive Request where
  | setOverlay (o : OverlayInfo)
  | gsp (l₀ l₁ : GspLayer)
  | other
  deriving DecidableEq, Repr

/-- The hook before it calls the real `ioctl`. The second layer is mapped after the first was walked
over, and `mmap` may answer differently. -/
def hook (fuel : Nat) (mmap mmap' : Mmap) (p : Process) : Request → Walk FdMap
  | .setOverlay o => handleOsdMapped fuel mmap o p
  | .gsp l₀ l₁ =>
      (handleLayerMapped fuel mmap l₀ p.fdMap).bind fun t => handleLayerMapped fuel mmap' l₁ t
  | .other => .done p.fdMap

/-! ### A walk over one mapping -/

theorem Mmap.length_le (mmap : Mmap) {fd : Int} {len : Word} {m : List Byte}
    (h : mmap.map fd len = some m) : m.length ≤ 2 ^ 32 := by
  rw [mmap.length_eq h]
  exact len.isLt.le

/-- Over a mapping that holds the pixels, this is the rotation of the buffer as a whole. -/
theorem rotateMapped_eq {fuel : Nat} {fd : Int} {buf : Buf} {npix : Word} {p : Process}
    (hfuel : npix.toNat < fuel) (hroom : 4 * npix.toNat ≤ (p.mem buf).length)
    (hsmall : (p.mem buf).length ≤ 2 ^ 32) :
    rotateMapped fuel fd (p.mem buf) npix p.fdMap =
      .done ((rotateOnce fd buf npix.toNat p).fdMap, (rotateOnce fd buf npix.toNat p).mem buf) := by
  unfold rotateMapped rotateOnce
  simp only [processWalk_read hfuel hroom hsmall, process_rotate hroom, Walk.bind_done]
  split
  · rfl
  · simp only [processWalk_rotate hfuel hroom hsmall, Walk.bind_done, Function.update_self]

theorem rotateMapped_short {fuel : Nat} {fd : Int} {m : List Byte} {npix : Word} {t : FdMap}
    (hshort : m.length < 4 * npix.toNat) (hsmall : m.length ≤ 2 ^ 32) (hfuel : m.length < fuel) :
    rotateMapped fuel fd m npix t = .fault := by
  unfold rotateMapped
  simp only [processWalk_short false hshort hsmall hfuel, Walk.bind_fault]

theorem rotateMapped_inside {fuel : Nat} {fd : Int} {m : List Byte} {npix : Word} {t : FdMap}
    (hroom : 4 * npix.toNat ≤ m.length) (hsmall : m.length ≤ 2 ^ 32) :
    rotateMapped fuel fd m npix t ≠ .fault := by
  have hread := (processWalk_inside_iff false hsmall).2 hroom fuel
  obtain ⟨j, t', hslot⟩ : ∃ j t', fdSlot fd t = (j, t') := ⟨_, _, rfl⟩
  unfold rotateMapped
  rw [hslot]
  apply Walk.bind_ne_fault hread
  intro r hdone
  obtain hrunning | hprocess := processWalk_running_or false hroom hsmall fuel
  · rw [hdone] at hrunning
    cases hrunning
  · rw [hdone, Walk.done.injEq] at hprocess
    have hm : r.2 = m := by
      rw [hprocess]
      exact process_read m npix.toNat
    simp only
    split
    · simp
    · rw [hm]
      exact Walk.bind_ne_fault ((processWalk_inside_iff true hsmall).2 hroom fuel) (by simp)

/-- A mapping that is too short is left, whatever its bytes. -/
theorem walkMapped_short {fuel : Nat} {mmap : Mmap} {fd : Int} {len npix : Word} (t : FdMap)
    (hmap : mmap.map fd len ≠ none) (hshort : len.toNat < 4 * npix.toNat)
    (hfuel : len.toNat < fuel) : walkMapped fuel mmap fd len npix t = .fault := by
  obtain ⟨m, hm⟩ := Option.ne_none_iff_exists'.1 hmap
  have hlength := mmap.length_eq hm
  unfold walkMapped
  simp only [hm]
  rw [rotateMapped_short (by omega) (mmap.length_le hm) (by omega), Walk.bind_fault]

theorem walkMapped_inside {mmap : Mmap} {fd : Int} {len npix : Word} {t : FdMap}
    (hroom : mmap.map fd len ≠ none → 4 * npix.toNat ≤ len.toNat) (fuel : Nat) :
    walkMapped fuel mmap fd len npix t ≠ .fault := by
  unfold walkMapped
  cases hmap : mmap.map fd len with
  | none => simp
  | some m =>
      refine Walk.bind_ne_fault (rotateMapped_inside ?_ (mmap.length_le hmap)) (by simp)
      rw [mmap.length_eq hmap]
      exact hroom (by simp [hmap])

theorem walkMapped_done {fuel : Nat} {mmap : Mmap} {fd : Int} {len npix : Word} {t : FdMap}
    (hroom : mmap.map fd len ≠ none → 4 * npix.toNat ≤ len.toNat) (hfuel : npix.toNat < fuel) :
    ∃ t', walkMapped fuel mmap fd len npix t = .done t' := by
  unfold walkMapped
  cases hmap : mmap.map fd len with
  | none => exact ⟨t, rfl⟩
  | some m =>
      have hm : 4 * npix.toNat ≤ m.length := by
        rw [mmap.length_eq hmap]
        exact hroom (by simp [hmap])
      have hsmall := mmap.length_le hmap
      simp only [rotateMapped, processWalk_read hfuel hm hsmall, Walk.bind_done]
      split
      · exact ⟨_, rfl⟩
      · simp only [processWalk_rotate hfuel hm hsmall, Walk.bind_done]
        exact ⟨_, rfl⟩

/-! ### When the hook stays inside -/

/-- A recorded length holds the rectangle, one computed from the rectangle did not wrap. -/
def OsdFits (mmap : Mmap) (p : Process) (o : OverlayInfo) : Prop :=
  ∀ e, osdEntry o p = some e → mmap.map e.fd (osdLen o e) ≠ none →
    if e.len ≠ 0 then 4 * (o.rect.w.toNat * o.rect.h.toNat) ≤ e.len.toNat
    else 4 * (o.rect.w.toNat * o.rect.h.toNat) < 2 ^ 32

/-- The length computed from the layer did not wrap. -/
def LayerFits (mmap : Mmap) (l : GspLayer) : Prop :=
  gspEligible l → mmap.map l.shareFd (layerLen l) ≠ none →
    4 * (l.pitch.toNat * l.rectH.toNat % 2 ^ 32) < 2 ^ 32

def RequestFits (mmap mmap' : Mmap) (p : Process) : Request → Prop
  | .setOverlay o => OsdFits mmap p o
  | .gsp l₀ l₁ => LayerFits mmap l₀ ∧ LayerFits mmap' l₁
  | .other => True

theorem osdNpix_toNat (o : OverlayInfo) :
    (osdNpix o).toNat = o.rect.w.toNat * o.rect.h.toNat := by
  have hw := o.rect.w.isLt
  have hh := o.rect.h.isLt
  have hmul : o.rect.w.toNat * o.rect.h.toNat < 2 ^ 32 :=
    (Nat.mul_lt_mul'' hw hh).trans_eq (by decide)
  unfold osdNpix
  rw [BitVec.toNat_mul, BitVec.toNat_setWidth_of_le (by decide),
    BitVec.toNat_setWidth_of_le (by decide), Nat.mod_eq_of_lt hmul]

theorem layerNpix_toNat (l : GspLayer) :
    (layerNpix l).toNat = l.pitch.toNat * l.rectH.toNat % 2 ^ 32 := by
  unfold layerNpix
  rw [BitVec.toNat_mul, BitVec.toNat_setWidth_of_le (by decide)]

/-- Four bytes a pixel are enough unless their number wraps. -/
theorem computed_len_iff (npix : Word) :
    4 * npix.toNat ≤ (npix * 4).toNat ↔ 4 * npix.toNat < 2 ^ 32 := by
  have hmul : (npix * 4).toNat = npix.toNat * 4 % 2 ^ 32 := BitVec.toNat_mul npix 4
  rw [hmul]
  have hlt := Nat.mod_lt (npix.toNat * 4) (show 0 < 2 ^ 32 by decide)
  constructor
  · intro hle
    omega
  · intro hsmall
    rw [Nat.mod_eq_of_lt (by omega)]
    omega

theorem osdFits_iff {mmap : Mmap} {p : Process} {o : OverlayInfo} :
    OsdFits mmap p o ↔ ∀ e, osdEntry o p = some e → mmap.map e.fd (osdLen o e) ≠ none →
      4 * (osdNpix o).toNat ≤ (osdLen o e).toNat := by
  have hlen (e : PhysEntry) :
      4 * (osdNpix o).toNat ≤ (osdLen o e).toNat ↔
        if e.len ≠ 0 then 4 * (o.rect.w.toNat * o.rect.h.toNat) ≤ e.len.toNat
        else 4 * (o.rect.w.toNat * o.rect.h.toNat) < 2 ^ 32 := by
    unfold osdLen
    split
    · rw [osdNpix_toNat]
    · rw [computed_len_iff, osdNpix_toNat]
  unfold OsdFits
  simp only [hlen]

theorem layerFits_iff {mmap : Mmap} {l : GspLayer} :
    LayerFits mmap l ↔ (gspEligible l → mmap.map l.shareFd (layerLen l) ≠ none →
      4 * (layerNpix l).toNat ≤ (layerLen l).toNat) := by
  unfold LayerFits layerLen
  rw [computed_len_iff, layerNpix_toNat]

theorem handleOsdMapped_inside_iff {mmap : Mmap} {p : Process} {o : OverlayInfo} :
    (∀ fuel, handleOsdMapped fuel mmap o p ≠ .fault) ↔ OsdFits mmap p o := by
  rw [osdFits_iff]
  constructor
  · intro hinside e he hmap
    by_contra hshort
    apply hinside ((osdLen o e).toNat + 1)
    simp only [handleOsdMapped, he]
    exact walkMapped_short p.fdMap hmap (by omega) (by omega)
  · intro hfits fuel
    unfold handleOsdMapped
    split
    · simp
    · exact walkMapped_inside (hfits _ (by assumption)) fuel

theorem handleLayerMapped_short {fuel : Nat} {mmap : Mmap} {l : GspLayer} (t : FdMap)
    (hfits : ¬LayerFits mmap l) (hfuel : (layerLen l).toNat < fuel) :
    handleLayerMapped fuel mmap l t = .fault := by
  rw [layerFits_iff] at hfits
  push Not at hfits
  obtain ⟨heligible, hmap, hshort⟩ := hfits
  rw [handleLayerMapped, if_pos heligible]
  exact walkMapped_short t hmap hshort hfuel

theorem handleLayerMapped_inside {mmap : Mmap} {l : GspLayer} (hfits : LayerFits mmap l)
    (fuel : Nat) (t : FdMap) : handleLayerMapped fuel mmap l t ≠ .fault := by
  rw [layerFits_iff] at hfits
  unfold handleLayerMapped
  split
  · exact walkMapped_inside (hfits (by assumption)) fuel
  · simp

theorem handleLayerMapped_done {fuel : Nat} {mmap : Mmap} {l : GspLayer} (t : FdMap)
    (hfits : LayerFits mmap l) (hfuel : (layerNpix l).toNat < fuel) :
    ∃ t', handleLayerMapped fuel mmap l t = .done t' := by
  rw [layerFits_iff] at hfits
  unfold handleLayerMapped
  split
  · exact walkMapped_done (hfits (by assumption)) hfuel
  · exact ⟨t, rfl⟩

/-- For every state of the tables, every request and every answer of `mmap`: the walks of the hook
stay inside the mappings exactly when the request fits. -/
theorem hook_inside_iff (mmap mmap' : Mmap) (p : Process) (r : Request) :
    (∀ fuel, hook fuel mmap mmap' p r ≠ .fault) ↔ RequestFits mmap mmap' p r := by
  cases r with
  | setOverlay o => exact handleOsdMapped_inside_iff
  | gsp l₀ l₁ =>
      constructor
      · intro hinside
        have hfirst : LayerFits mmap l₀ := by
          by_contra hfits
          apply hinside ((layerLen l₀).toNat + 1)
          simp only [hook, handleLayerMapped_short p.fdMap hfits (Nat.lt_succ_self _),
            Walk.bind_fault]
        refine ⟨hfirst, ?_⟩
        by_contra hfits
        have hfuel₀ : (layerNpix l₀).toNat < (layerNpix l₀).toNat + (layerLen l₁).toNat + 1 := by
          omega
        have hfuel₁ : (layerLen l₁).toNat < (layerNpix l₀).toNat + (layerLen l₁).toNat + 1 := by
          omega
        obtain ⟨t, ht⟩ := handleLayerMapped_done p.fdMap hfirst hfuel₀
        apply hinside ((layerNpix l₀).toNat + (layerLen l₁).toNat + 1)
        simp only [hook, ht, Walk.bind_done]
        exact handleLayerMapped_short t hfits hfuel₁
      · intro ⟨hfirst, hsecond⟩ fuel
        apply Walk.bind_ne_fault (handleLayerMapped_inside hfirst fuel p.fdMap)
        intro t _
        exact handleLayerMapped_inside hsecond fuel t
  | other =>
      refine ⟨fun _ => trivial, fun _ fuel => ?_⟩
      simp [hook]

/-! ### Two requests that do not fit -/

/-- A `mmap` that refuses nothing but the length zero. -/
def zeroes : Mmap where
  map _ len := if len = 0 then none else some (List.replicate len.toNat 0)
  length_eq h := by
    split at h
    · cases h
    · rw [← Option.some.inj h, List.length_replicate]
  zero _ := rfl

/-- A process that has recorded one page for the address `0x9ffcc000`. -/
def onePage : Process where
  files := []
  fdMap := ⟨fun _ => ⟨0, 0⟩, 0⟩
  physMap := ⟨fun i => if i = 0 then ⟨0x9ffcc000, 5, 4096⟩ else ⟨0, 0, 0⟩, 0⟩
  pin := ⟨false, 0⟩
  mode := .cpu
  mem _ := []

def screenOverlay : OverlayInfo :=
  ⟨SPRD_LAYER_OSD, SPRD_DATA_FORMAT_RGB888, 0, 0, true, ⟨0, 0, 480, 800⟩, 0x9ffcc000⟩

def tallLayer : GspLayer := ⟨true, 7, 0x8001, 0x8001⟩

theorem zeroes_map {fd : Int} {len : Word} (h : len ≠ 0) : zeroes.map fd len ≠ none := by
  simpa [zeroes] using h

/-- A screen presented from an address recorded with one page, and a layer whose four bytes a pixel
wrap to 262148: both are walked over past the end of the mapping. -/
theorem hook_outside :
    hook 4097 zeroes zeroes onePage (.setOverlay screenOverlay) = .fault ∧
      hook 262149 zeroes zeroes onePage (.gsp tallLayer tallLayer) = .fault := by
  have hentry : osdEntry screenOverlay onePage = some ⟨0x9ffcc000, 5, 4096⟩ := by decide
  have heligible : gspEligible tallLayer = true := by decide
  constructor
  · simp only [hook, handleOsdMapped, hentry]
    exact walkMapped_short onePage.fdMap (zeroes_map (by decide)) (by decide) (by decide)
  · simp only [hook, handleLayerMapped, heligible, if_true]
    rw [walkMapped_short onePage.fdMap (zeroes_map (by decide)) (by decide) (by decide),
      Walk.bind_fault]

end LineageA1000.Shim
