import LineageA1000.Shim.Interpose
import LineageA1000.Lib.Run

/-!
# Each frame is rotated once

The interposer knows a buffer it has rotated by the hash it left behind a descriptor. The run keeps
what it cannot know: the frame the application wrote last, how often it has been rotated since, and
for each entry of the hash cache which rotation, of which buffer over how many pixels, set it. The
invariant says that an entry set by the last change of its buffer holds the hash found there now.
-/

namespace LineageA1000.Shim

open Dispc (OverlayInfo)

/-- The rotation an entry of the cache was set by: of a buffer, as its `gen`-th change, over `npix`
pixels. -/
structure Mark where
  buf : Buf
  gen : Nat
  npix : Nat
  deriving DecidableEq, Repr

structure Traced where
  p : Process
  /-- The buffer recorded last under an address. -/
  recorded : Word → Option Buf
  /-- The frame the application wrote last. -/
  frame : Buf → List Byte
  /-- The rotations since. -/
  rots : Buf → Nat
  /-- The changes of a buffer, by the application and by the shim. -/
  gen : Buf → Nat
  marks : Fin FDMAP → Option Mark

inductive Event where
  | openBuf (buf : Buf)
  | close (fd : Int)
  | record (phys : Word) (fd : Int) (len : Word)
  | write (buf : Buf) (frame : List Byte)
  | setOverlay (o : OverlayInfo) (mapped : Bool)
  | gsp (l0 l1 : GspLayer) (mapped0 mapped1 : Bool)

namespace Traced

/-- `rotateOnce` with its bookkeeping: an entry that is taken over loses its mark. -/
def rotateOnce (fd : Int) (buf : Buf) (npix : Nat) (s : Traced) : Traced :=
  let (j, t) := fdSlot fd s.p.fdMap
  let marks :=
    if t.entries j = s.p.fdMap.entries j then s.marks else Function.update s.marks j none
  if (t.entries j).hash = hashPixels npix (s.p.mem buf) then
    { s with p := Shim.rotateOnce fd buf npix s.p, marks }
  else
    { s with
      p := Shim.rotateOnce fd buf npix s.p
      rots := Function.update s.rots buf (s.rots buf + 1)
      gen := Function.update s.gen buf (s.gen buf + 1)
      marks := Function.update marks j (some ⟨buf, s.gen buf + 1, npix⟩) }

/-- The address a `SET_OVERLAY` hands on to the driver. -/
def handedOn (s : Traced) (o : OverlayInfo) : Word := (osdArg s.p.pin s.p.mode o).2.buffer

/-- The descriptor and buffer `handle_osd` reaches an address by. -/
def target (s : Traced) (phys : Word) : Option (Int × Buf) :=
  match findPhys phys s.p.physMap with
  | none => none
  | some i =>
      match s.p.files.lookup (s.p.physMap.entries i).fd with
      | none => none
      | some (_, buf) => some ((s.p.physMap.entries i).fd, buf)

def setOverlay (s : Traced) (o : OverlayInfo) (mapped : Bool) : Traced :=
  let s' : Traced := { s with p := { s.p with pin := (osdArg s.p.pin s.p.mode o).1 } }
  if osdEligible o ∧ s.p.mode = .cpu ∧ mapped then
    match s.target (s.handedOn o) with
    | none => s'
    | some (fd, buf) => s'.rotateOnce fd buf (osdPixels o)
  else s'

def layer (s : Traced) (l : GspLayer) (mapped : Bool) : Traced :=
  if gspEligible l ∧ mapped then
    match s.p.files.lookup l.shareFd with
    | none => s
    | some (_, buf) => s.rotateOnce l.shareFd buf (gspPixels l)
  else s

/-- The application closes only descriptors of its own. -/
def close (s : Traced) (fd : Int) : Traced :=
  match s.p.files.lookup fd with
  | some (.app, _) => { s with p := { s.p with files := s.p.files.close fd } }
  | _ => s

def record (s : Traced) (phys : Word) (fd : Int) (len : Word) : Traced :=
  { s with
    p := Shim.record phys fd len s.p
    recorded :=
      if phys = 0 ∨ fd < 0 then s.recorded
      else Function.update s.recorded phys ((s.p.files.lookup fd).map Prod.snd) }

def step (s : Traced) : Event → Traced
  | .openBuf buf => { s with p := { s.p with files := s.p.files.install .app buf } }
  | .close fd => s.close fd
  | .record phys fd len => s.record phys fd len
  | .write buf frame =>
      { s with
        p := { s.p with mem := Function.update s.p.mem buf frame }
        frame := Function.update s.frame buf frame
        rots := Function.update s.rots buf 0
        gen := Function.update s.gen buf (s.gen buf + 1) }
  | .setOverlay o mapped => s.setOverlay o mapped
  | .gsp l0 l1 mapped0 mapped1 => (s.layer l0 mapped0).layer l1 mapped1

/-- The bookkeeping does not interfere: the process moves as the interposer moves it. -/
theorem rotateOnce_p (s : Traced) (fd : Int) (buf : Buf) (npix : Nat) :
    (s.rotateOnce fd buf npix).p = Shim.rotateOnce fd buf npix s.p := by
  unfold rotateOnce
  dsimp only
  split <;> rfl

theorem setOverlay_p (s : Traced) (o : OverlayInfo) (mapped : Bool) :
    (s.setOverlay o mapped).p = (handleOsd o mapped s.p).2 := by
  unfold setOverlay handleOsd target handedOn
  dsimp only
  split
  · cases findPhys (osdArg s.p.pin s.p.mode o).2.buffer s.p.physMap with
    | none => rfl
    | some i =>
        dsimp only
        cases s.p.files.lookup (s.p.physMap.entries i).fd with
        | none => rfl
        | some x => exact rotateOnce_p _ _ _ _
  · rfl

theorem layer_p (s : Traced) (l : GspLayer) (mapped : Bool) :
    (s.layer l mapped).p = handleLayer l mapped s.p := by
  unfold layer handleLayer
  split
  · cases s.p.files.lookup l.shareFd with
    | none => rfl
    | some x => exact rotateOnce_p s _ _ _
  · rfl

end Traced

/-! ### The property and the condition -/

/-- The buffer holds the frame the application wrote last, rotated once. -/
def ShownOnce (s : Traced) (buf : Buf) (npix : Nat) : Prop :=
  s.rots buf = 1 ∧ s.p.mem buf = rotatePixels npix (s.frame buf)

/-- Every presented buffer, the one whose address or descriptor is handed on, is shown once
rotated. -/
def PresentedOnce (s : Traced) (e : Event) : Prop :=
  match e with
  | .setOverlay o _ =>
      osdEligible o = true → ∀ buf, s.recorded (s.handedOn o) = some buf →
        ShownOnce (s.step e) buf (osdPixels o)
  | .gsp l0 l1 _ _ =>
      ∀ l ∈ [l0, l1], gspEligible l = true → ∀ x, s.p.files.lookup l.shareFd = some x →
        ShownOnce (s.step e) x.2 (gspPixels l)
  | _ => True

/-- The cache recognises a presentation: a frame not rotated yet does not hash to what the entry of
the descriptor holds, and a rotated one finds the entry its own rotation set, over the same pixels.
The pixels lie in the buffer. -/
structure Recognised (s : Traced) (fd : Int) (buf : Buf) (npix : Nat) : Prop where
  inside : 4 * npix ≤ (s.p.mem buf).length
  fresh : s.rots buf = 0 → ((fdSlot fd s.p.fdMap).2.entries (fdSlot fd s.p.fdMap).1).hash ≠
    hashPixels npix (s.p.mem buf)
  unchanged : s.rots buf ≠ 0 → (s.p.fdMap.entries (fdSlot fd s.p.fdMap).1).fd = fd ∧
    s.marks (fdSlot fd s.p.fdMap).1 = some ⟨buf, s.gen buf, npix⟩

def LayerRecognised (s : Traced) (l : GspLayer) (mapped : Bool) : Prop :=
  gspEligible l = true → ∀ x, s.p.files.lookup l.shareFd = some x →
    mapped = true ∧ Recognised s l.shareFd x.2 (gspPixels l)

/-- Steps whose presentations reach the buffer and are recognised. -/
def CacheRecognises (s : Traced) (e : Event) : Prop :=
  match e with
  | .setOverlay o mapped =>
      osdEligible o = true → ∀ buf, s.recorded (s.handedOn o) = some buf →
        mapped = true ∧ ∃ fd, s.target (s.handedOn o) = some (fd, buf) ∧
          Recognised s fd buf (osdPixels o)
  | .gsp l0 l1 mapped0 mapped1 =>
      LayerRecognised s l0 mapped0 ∧ LayerRecognised (s.layer l0 mapped0) l1 mapped1
  | _ => True

section Decidable

instance decidableForallEqSome {α : Type*} (x : Option α) (P : α → Prop) [DecidablePred P] :
    Decidable (∀ a, x = some a → P a) :=
  match x with
  | none => isTrue nofun
  | some a => decidable_of_iff (P a) ⟨fun h _ hb => Option.some.inj hb ▸ h, fun h => h a rfl⟩

instance decidableExistsEqSome {α β : Type*} [DecidableEq β] (x : Option (α × β)) (b : β)
    (P : α → Prop) [DecidablePred P] : Decidable (∃ a, x = some (a, b) ∧ P a) :=
  match x with
  | none => isFalse nofun
  | some (a, b') =>
      decidable_of_iff (b' = b ∧ P a)
        ⟨fun h => ⟨a, h.1 ▸ rfl, h.2⟩, fun ⟨_, h, hP⟩ => by cases h; exact ⟨rfl, hP⟩⟩

instance (s : Traced) (buf : Buf) (npix : Nat) : Decidable (ShownOnce s buf npix) :=
  inferInstanceAs (Decidable (_ ∧ _))

instance (s : Traced) (fd : Int) (buf : Buf) (npix : Nat) : Decidable (Recognised s fd buf npix) :=
  decidable_of_iff
    (4 * npix ≤ (s.p.mem buf).length ∧
      (s.rots buf = 0 → ((fdSlot fd s.p.fdMap).2.entries (fdSlot fd s.p.fdMap).1).hash ≠
        hashPixels npix (s.p.mem buf)) ∧
      (s.rots buf ≠ 0 → (s.p.fdMap.entries (fdSlot fd s.p.fdMap).1).fd = fd ∧
        s.marks (fdSlot fd s.p.fdMap).1 = some ⟨buf, s.gen buf, npix⟩))
    ⟨fun h => ⟨h.1, h.2.1, h.2.2⟩, fun h => ⟨h.inside, h.fresh, h.unchanged⟩⟩

instance (s : Traced) (l : GspLayer) (mapped : Bool) : Decidable (LayerRecognised s l mapped) :=
  inferInstanceAs (Decidable (gspEligible l = true → ∀ x, s.p.files.lookup l.shareFd = some x →
    mapped = true ∧ Recognised s l.shareFd x.2 (gspPixels l)))

instance (s : Traced) (e : Event) : Decidable (PresentedOnce s e) :=
  match e with
  | .setOverlay o mapped =>
      inferInstanceAs (Decidable (osdEligible o = true → ∀ buf,
        s.recorded (s.handedOn o) = some buf →
          ShownOnce (s.step (.setOverlay o mapped)) buf (osdPixels o)))
  | .gsp l0 l1 mapped0 mapped1 =>
      inferInstanceAs (Decidable (∀ l ∈ [l0, l1], gspEligible l = true → ∀ x,
        s.p.files.lookup l.shareFd = some x →
          ShownOnce (s.step (.gsp l0 l1 mapped0 mapped1)) x.2 (gspPixels l)))
  | .openBuf _ | .close _ | .record .. | .write .. => inferInstanceAs (Decidable True)

instance (s : Traced) (e : Event) : Decidable (CacheRecognises s e) :=
  match e with
  | .setOverlay o mapped =>
      inferInstanceAs (Decidable (osdEligible o = true → ∀ buf,
        s.recorded (s.handedOn o) = some buf → mapped = true ∧
          ∃ fd, s.target (s.handedOn o) = some (fd, buf) ∧ Recognised s fd buf (osdPixels o)))
  | .gsp l0 l1 mapped0 mapped1 =>
      inferInstanceAs (Decidable (LayerRecognised s l0 mapped0 ∧
        LayerRecognised (s.layer l0 mapped0) l1 mapped1))
  | .openBuf _ | .close _ | .record .. | .write .. => inferInstanceAs (Decidable True)

end Decidable

/-! ### The invariant -/

/-- The table and the descriptors the shim holds. -/
structure Held (s : Traced) : Prop where
  cpu : s.p.mode = .cpu
  distinct : ∀ i j, (s.p.physMap.entries i).phys ≠ 0 → (s.p.physMap.entries j).phys ≠ 0 →
    0 ≤ (s.p.physMap.entries i).fd →
    (s.p.physMap.entries i).fd = (s.p.physMap.entries j).fd → i = j
  reaches : ∀ i, (s.p.physMap.entries i).phys ≠ 0 → 0 ≤ (s.p.physMap.entries i).fd →
    ∃ buf, s.p.files.lookup (s.p.physMap.entries i).fd = some (.shim, buf) ∧
      s.recorded (s.p.physMap.entries i).phys = some buf
  physDistinct : ∀ i j, (s.p.physMap.entries i).phys ≠ 0 →
    (s.p.physMap.entries i).phys = (s.p.physMap.entries j).phys → i = j

/-- What an entry says that was set by the last change of its buffer. -/
def Truthful (s : Traced) (j : Fin FDMAP) (mark : Mark) : Prop :=
  (s.p.fdMap.entries j).hash = hashPixels mark.npix (s.p.mem mark.buf) ∧
    s.rots mark.buf = 1 ∧ s.p.mem mark.buf = rotatePixels mark.npix (s.frame mark.buf)

structure Kept (s : Traced) : Prop where
  mark_le : ∀ j mark, s.marks j = some mark → mark.gen ≤ s.gen mark.buf
  truthful : ∀ j mark, s.marks j = some mark → mark.gen = s.gen mark.buf → Truthful s j mark
  untouched : ∀ buf, s.rots buf = 0 → s.p.mem buf = s.frame buf

structure Sound (s : Traced) : Prop where
  held : Held s
  kept : Kept s

/-- The entry of a descriptor: found as it is, or taken over with the hash zero. -/
theorem fdSlot_spec (fd : Int) (t : FdMap) :
    ((fdSlot fd t).2 = t ∧ (t.entries (fdSlot fd t).1).fd = fd) ∨
      ((t.entries (fdSlot fd t).1).fd ≠ fd ∧
        (fdSlot fd t).2.entries = Function.update t.entries (fdSlot fd t).1 ⟨fd, 0⟩) := by
  unfold fdSlot
  cases hfound : findIndex fun i => decide ((t.entries i).fd = fd) with
  | some i => exact .inl ⟨rfl, of_decide_eq_true (findIndex_some hfound)⟩
  | none =>
      have hother (i : Fin FDMAP) : (t.entries i).fd ≠ fd :=
        of_decide_eq_false (findIndex_none hfound i)
      cases findIndex fun i => decide ((t.entries i).fd = 0) with
      | some i => exact .inr ⟨hother i, rfl⟩
      | none => exact .inr ⟨hother t.rr, rfl⟩

/-! ### One rotation -/

/-- Presenting a buffer again whose own rotation set the entry changes nothing at all. -/
theorem rotateOnce_unchanged {s : Traced} (hs : Kept s) {fd : Int} {buf : Buf} {npix : Nat}
    (hentry : (s.p.fdMap.entries (fdSlot fd s.p.fdMap).1).fd = fd)
    (hmark : s.marks (fdSlot fd s.p.fdMap).1 = some ⟨buf, s.gen buf, npix⟩) :
    s.rotateOnce fd buf npix = s := by
  have hmap : (fdSlot fd s.p.fdMap).2 = s.p.fdMap := by
    obtain ⟨hmap, -⟩ | ⟨hother, -⟩ := fdSlot_spec fd s.p.fdMap
    · exact hmap
    · exact absurd hentry hother
  have hhash := (hs.truthful _ _ hmark rfl).1
  unfold Traced.rotateOnce Shim.rotateOnce
  dsimp only
  rw [hmap, if_pos rfl, if_pos hhash, if_pos hhash]

/-- A frame the entry does not stand for is rotated and the entry set by it. -/
theorem rotateOnce_fresh {s : Traced} {fd : Int} {buf : Buf} {npix : Nat}
    (hinside : 4 * npix ≤ (s.p.mem buf).length)
    (hfresh : ((fdSlot fd s.p.fdMap).2.entries (fdSlot fd s.p.fdMap).1).hash ≠
      hashPixels npix (s.p.mem buf)) :
    ∃ marks entries rr,
      s.rotateOnce fd buf npix =
        { s with
          p := { s.p with
            fdMap := ⟨Function.update entries (fdSlot fd s.p.fdMap).1
              ⟨(entries (fdSlot fd s.p.fdMap).1).fd,
                hashPixels npix (rotatePixels npix (s.p.mem buf))⟩, rr⟩
            mem := Function.update s.p.mem buf (rotatePixels npix (s.p.mem buf)) }
          rots := Function.update s.rots buf (s.rots buf + 1)
          gen := Function.update s.gen buf (s.gen buf + 1)
          marks := Function.update marks (fdSlot fd s.p.fdMap).1
            (some ⟨buf, s.gen buf + 1, npix⟩) } ∧
        ∀ i, i ≠ (fdSlot fd s.p.fdMap).1 →
          marks i = s.marks i ∧ entries i = s.p.fdMap.entries i := by
  have hentries (i : Fin FDMAP) (hi : i ≠ (fdSlot fd s.p.fdMap).1) :
      (fdSlot fd s.p.fdMap).2.entries i = s.p.fdMap.entries i := by
    obtain ⟨hmap, -⟩ | ⟨-, hentries⟩ := fdSlot_spec fd s.p.fdMap
    · rw [hmap]
    · rw [hentries, Function.update_of_ne hi]
  refine ⟨if (fdSlot fd s.p.fdMap).2.entries (fdSlot fd s.p.fdMap).1 =
      s.p.fdMap.entries (fdSlot fd s.p.fdMap).1 then s.marks
    else Function.update s.marks (fdSlot fd s.p.fdMap).1 none,
    (fdSlot fd s.p.fdMap).2.entries, (fdSlot fd s.p.fdMap).2.rr, ?_,
    fun i hi => ⟨?_, hentries i hi⟩⟩
  · unfold Traced.rotateOnce Shim.rotateOnce
    dsimp only
    rw [if_neg hfresh, if_neg hfresh, process_rotate hinside]
  · split
    · rfl
    · rw [Function.update_of_ne hi]

theorem rotateOnce_sound {s : Traced} (hs : Kept s) {fd : Int} {buf : Buf} {npix : Nat}
    (hok : Recognised s fd buf npix) :
    Kept (s.rotateOnce fd buf npix) ∧ ShownOnce (s.rotateOnce fd buf npix) buf npix := by
  by_cases hrots : s.rots buf = 0
  case neg =>
    obtain ⟨hentry, hmark⟩ := hok.unchanged hrots
    rw [rotateOnce_unchanged hs hentry hmark]
    exact ⟨hs, (hs.truthful _ _ hmark rfl).2⟩
  obtain ⟨marks, entries, rr, heq, hother⟩ := rotateOnce_fresh hok.inside (hok.fresh hrots)
  have hshown : ShownOnce (s.rotateOnce fd buf npix) buf npix := by
    rw [heq]
    refine ⟨?_, ?_⟩
    · show Function.update s.rots buf (s.rots buf + 1) buf = 1
      rw [Function.update_self, hrots]
    · show Function.update s.p.mem buf (rotatePixels npix (s.p.mem buf)) buf = _
      rw [Function.update_self, hs.untouched buf hrots]
  refine ⟨⟨?_, ?_, ?_⟩, hshown⟩
  · intro i mark hmark
    rw [heq] at hmark ⊢
    dsimp only at hmark ⊢
    by_cases hi : i = (fdSlot fd s.p.fdMap).1
    · rw [hi, Function.update_self, Option.some.injEq] at hmark
      rw [← hmark, Function.update_self]
    · rw [Function.update_of_ne hi, (hother i hi).1] at hmark
      have hle := hs.mark_le i mark hmark
      by_cases hbuf : mark.buf = buf
      · rw [hbuf, Function.update_self]
        rw [hbuf] at hle
        omega
      · rw [Function.update_of_ne hbuf]
        exact hle
  · intro i mark hmark hgen
    by_cases hi : i = (fdSlot fd s.p.fdMap).1
    · -- The entry just set.
      have hset : mark = ⟨buf, s.gen buf + 1, npix⟩ := by
        rw [heq, hi] at hmark
        dsimp only at hmark
        rw [Function.update_self, Option.some.injEq] at hmark
        exact hmark.symm
      subst hset
      refine ⟨?_, hshown⟩
      rw [heq, hi]
      dsimp only
      rw [Function.update_self, Function.update_self]
    · -- Another entry: of this buffer it is outdated now, of another nothing has changed.
      rw [heq] at hmark hgen
      dsimp only at hmark hgen
      rw [Function.update_of_ne hi, (hother i hi).1] at hmark
      have hle := hs.mark_le i mark hmark
      by_cases hbuf : mark.buf = buf
      · rw [hbuf] at hle hgen
        rw [Function.update_self] at hgen
        omega
      · rw [Function.update_of_ne hbuf] at hgen
        obtain ⟨hhash, hone, hmem⟩ := hs.truthful i mark hmark hgen
        rw [heq]
        refine ⟨?_, ?_, ?_⟩
        · dsimp only
          rw [Function.update_of_ne hi, (hother i hi).2, Function.update_of_ne hbuf, hhash]
        · dsimp only
          rw [Function.update_of_ne hbuf, hone]
        · dsimp only
          rw [Function.update_of_ne hbuf, hmem]
  · intro b hb
    rw [heq] at hb ⊢
    dsimp only at hb ⊢
    by_cases hbuf : b = buf
    · rw [hbuf, Function.update_self] at hb
      omega
    · rw [Function.update_of_ne hbuf] at hb
      rw [Function.update_of_ne hbuf]
      exact hs.untouched b hb

/-- A recognised presentation leaves what other presentations have shown. -/
theorem shownOnce_rotateOnce {s : Traced} (hs : Kept s) {fd : Int} {buf buf' : Buf}
    {npix npix' : Nat} (hok : Recognised s fd buf npix) (hshown : ShownOnce s buf' npix') :
    ShownOnce (s.rotateOnce fd buf npix) buf' npix' := by
  by_cases hrots : s.rots buf = 0
  case neg =>
    obtain ⟨hentry, hmark⟩ := hok.unchanged hrots
    rw [rotateOnce_unchanged hs hentry hmark]
    exact hshown
  obtain ⟨marks, entries, rr, heq, -⟩ := rotateOnce_fresh hok.inside (hok.fresh hrots)
  have hbuf : buf' ≠ buf := by
    intro h
    have hone := hshown.1
    rw [h, hrots] at hone
    exact absurd hone (by decide)
  rw [heq]
  refine ⟨?_, ?_⟩
  · show Function.update s.rots buf (s.rots buf + 1) buf' = 1
    rw [Function.update_of_ne hbuf]
    exact hshown.1
  · show Function.update s.p.mem buf (rotatePixels npix (s.p.mem buf)) buf' = _
    rw [Function.update_of_ne hbuf]
    exact hshown.2

/-! ### The table of addresses -/

theorem Held.of_same {s s' : Traced} (hs : Held s) (hmode : s'.p.mode = s.p.mode)
    (hmap : s'.p.physMap = s.p.physMap) (hfiles : s'.p.files = s.p.files)
    (hrecorded : s'.recorded = s.recorded) : Held s' := by
  refine ⟨hmode.trans hs.cpu, ?_, ?_, ?_⟩
  · rw [hmap]
    exact hs.distinct
  · rw [hmap, hfiles, hrecorded]
    exact hs.reaches
  · rw [hmap]
    exact hs.physDistinct

/-- Descriptors the shim holds stay what they are. -/
theorem Held.of_files {s : Traced} (hs : Held s) {files : Files}
    (hfiles : ∀ fd buf, s.p.files.lookup fd = some (.shim, buf) →
      files.lookup fd = some (.shim, buf)) :
    Held { s with p := { s.p with files } } := by
  refine ⟨hs.cpu, hs.distinct, ?_, hs.physDistinct⟩
  intro i hphys hfd
  obtain ⟨buf, hlookup, hrecorded⟩ := hs.reaches i hphys hfd
  exact ⟨buf, hfiles _ _ hlookup, hrecorded⟩

theorem held_rotateOnce {s : Traced} (hs : Held s) (fd : Int) (buf : Buf) (npix : Nat) :
    Held (s.rotateOnce fd buf npix) := by
  have hprocess : (Shim.rotateOnce fd buf npix s.p).mode = s.p.mode ∧
      (Shim.rotateOnce fd buf npix s.p).physMap = s.p.physMap ∧
      (Shim.rotateOnce fd buf npix s.p).files = s.p.files := by
    unfold Shim.rotateOnce
    dsimp only
    split <;> exact ⟨rfl, rfl, rfl⟩
  obtain ⟨hmode, hmap, hfiles⟩ := hprocess
  unfold Traced.rotateOnce
  dsimp only
  split
  · exact hs.of_same hmode hmap hfiles rfl
  · exact hs.of_same hmode hmap hfiles rfl

theorem held_open {s : Traced} (hs : Held s) (buf : Buf) :
    Held { s with p := { s.p with files := s.p.files.install .app buf } } := by
  apply hs.of_files
  intro fd buf' hlookup
  rw [Files.lookup_install, if_neg, hlookup]
  intro hfree
  rw [hfree, Files.lookup_lowestFree] at hlookup
  cases hlookup

theorem held_close {s : Traced} (hs : Held s) (fd : Int) : Held (s.close fd) := by
  unfold Traced.close
  split
  · rename_i hown
    apply hs.of_files
    intro fd' buf' hlookup
    rw [Files.lookup_close, if_neg, hlookup]
    intro hsame
    rw [hsame, hown] at hlookup
    cases hlookup
  · exact hs

/-- An address already in the table is recorded in its own entry. -/
theorem recordIndex_spec {phys : Word} {t : PhysMap}
    (hdistinct : ∀ i j, (t.entries i).phys ≠ 0 → (t.entries i).phys = (t.entries j).phys → i = j)
    (hphys : phys ≠ 0) {j : Fin PHYSMAP} (hj : (t.entries j).phys = phys) :
    (recordIndex phys t).1 = j := by
  unfold recordIndex
  cases hfound : findPhys phys t with
  | none =>
      have hother := findIndex_none hfound j
      exact absurd hj (of_decide_eq_false hother)
  | some i =>
      have hi : (t.entries i).phys = phys := of_decide_eq_true (findIndex_some hfound)
      exact hdistinct i j (by rw [hi]; exact hphys) (hi.trans hj.symm)

/-- Replacing one entry keeps the keys of the live entries apart when the new key is a new one. -/
theorem distinct_update {ι α β : Type*} [DecidableEq ι] (live : α → Prop) (key : α → β)
    {f : ι → α} (hf : ∀ j k, live (f j) → live (f k) → key (f j) = key (f k) → j = k) {i : ι}
    {x : α} (hx : ∀ j, j ≠ i → live (f j) → live x → key (f j) ≠ key x) (j k : ι)
    (hj : live (Function.update f i x j)) (hk : live (Function.update f i x k))
    (hjk : key (Function.update f i x j) = key (Function.update f i x k)) : j = k := by
  by_cases hji : j = i <;> by_cases hki : k = i
  · rw [hji, hki]
  · rw [hji, Function.update_self] at hj hjk
    rw [Function.update_of_ne hki] at hk hjk
    exact absurd hjk.symm (hx k hki hk hj)
  · rw [hki, Function.update_self] at hk hjk
    rw [Function.update_of_ne hji] at hj hjk
    exact absurd hjk (hx j hji hj hk)
  · rw [Function.update_of_ne hji] at hj hjk
    rw [Function.update_of_ne hki] at hk hjk
    exact hf j k hj hk hjk

/-- Closing what an entry holds takes no other entry's descriptor away and opens none. -/
theorem Held.without_entry {s : Traced} (hs : Held s) (i : Fin PHYSMAP) {files : Files}
    (hfiles : (if (s.p.physMap.entries i).phys ≠ 0 ∧ 0 < (s.p.physMap.entries i).fd then
      s.p.files.close (s.p.physMap.entries i).fd else s.p.files) = files) :
    (∀ j ≠ i, (s.p.physMap.entries j).phys ≠ 0 → 0 ≤ (s.p.physMap.entries j).fd → ∃ buf,
      files.lookup (s.p.physMap.entries j).fd = some (.shim, buf) ∧
        s.recorded (s.p.physMap.entries j).phys = some buf) ∧
    ∀ fd x, files.lookup fd = some x → s.p.files.lookup fd = some x := by
  constructor
  · intro j hji hj hfd
    obtain ⟨buf, hlookup, hrecorded⟩ := hs.reaches j hj hfd
    refine ⟨buf, ?_, hrecorded⟩
    rw [← hfiles]
    split
    · rename_i hold
      rw [Files.lookup_close, if_neg, hlookup]
      exact fun hsame => hji (hs.distinct j i hj hold.1 hfd hsame)
    · exact hlookup
  · intro fd x h
    rw [← hfiles] at h
    split at h
    · rw [Files.lookup_close] at h
      split at h
      · cases h
      · exact h
    · exact h

/-- An entry that is filled with a descriptor of its own, or with none. -/
theorem Held.filled {s : Traced} (hs : Held s) {i : Fin PHYSMAP} (rr : Fin PHYSMAP) {phys : Word}
    (len : Word) {dupfd : Int} {files : Files} {r : Option Buf}
    (hown : ∀ j, (s.p.physMap.entries j).phys = phys → i = j)
    (hothers : ∀ j ≠ i, (s.p.physMap.entries j).phys ≠ 0 → 0 ≤ (s.p.physMap.entries j).fd →
      (s.p.physMap.entries j).fd ≠ dupfd ∧
        ∃ buf, files.lookup (s.p.physMap.entries j).fd = some (.shim, buf) ∧
          s.recorded (s.p.physMap.entries j).phys = some buf)
    (hnew : 0 ≤ dupfd → ∃ buf, files.lookup dupfd = some (.shim, buf) ∧ r = some buf) :
    Held { s with
      p := { s.p with
        files := files
        physMap := ⟨Function.update s.p.physMap.entries i ⟨phys, dupfd, len⟩, rr⟩ }
      recorded := Function.update s.recorded phys r } := by
  refine ⟨hs.cpu, fun j k hj hk hfd hjk => ?_, fun j hj hfd => ?_, fun j k hj hjk => ?_⟩
  · exact distinct_update (fun e : PhysEntry => e.phys ≠ 0 ∧ 0 ≤ e.fd) (fun e => e.fd)
      (fun j k hj hk => hs.distinct j k hj.1 hk.1 hj.2)
      (fun j hji hj _ => (hothers j hji hj.1 hj.2).1) j k ⟨hj, hfd⟩ ⟨hk, hjk ▸ hfd⟩ hjk
  · dsimp only at hj hfd ⊢
    by_cases hji : j = i
    · rw [hji, Function.update_self] at hfd ⊢
      obtain ⟨buf, hlive, hrecorded⟩ := hnew hfd
      exact ⟨buf, hlive, (Function.update_self ..).trans hrecorded⟩
    · rw [Function.update_of_ne hji] at hj hfd ⊢
      obtain ⟨-, buf, hlive, hrecorded⟩ := hothers j hji hj hfd
      refine ⟨buf, hlive, ?_⟩
      rw [Function.update_of_ne fun h => hji (hown j h).symm, hrecorded]
  · exact distinct_update (fun e : PhysEntry => e.phys ≠ 0) (fun e => e.phys)
      (fun j k hj _ => hs.physDistinct j k hj) (fun j hji _ _ h => hji (hown j h).symm) j k hj
      (hjk ▸ hj) hjk

theorem held_record {s : Traced} (hs : Held s) (phys : Word) (fd : Int) (len : Word) :
    Held (s.record phys fd len) := by
  unfold Traced.record Shim.record
  by_cases hskip : phys = 0 ∨ fd < 0
  · rw [if_pos hskip, if_pos hskip]
    exact hs
  rw [if_neg hskip, if_neg hskip]
  have hphys : phys ≠ 0 := fun h => hskip (.inl h)
  have hown (j : Fin PHYSMAP) (hj : (s.p.physMap.entries j).phys = phys) :
      (recordIndex phys s.p.physMap).1 = j := recordIndex_spec hs.physDistinct hphys hj
  generalize recordIndex phys s.p.physMap = index at hown ⊢
  obtain ⟨i, rr⟩ := index
  dsimp only at hown ⊢
  generalize hfiles : (if (s.p.physMap.entries i).phys ≠ 0 ∧ 0 < (s.p.physMap.entries i).fd then
    s.p.files.close (s.p.physMap.entries i).fd else s.p.files) = files
  obtain ⟨hothers, hopen⟩ := hs.without_entry i hfiles
  unfold Files.dup
  cases hlookup : files.lookup fd with
  | none =>
      refine hs.filled rr len hown (fun j hji hj hfd => ⟨?_, hothers j hji hj hfd⟩) fun hfd => ?_
      · intro h
        rw [h] at hfd
        exact absurd hfd (show ¬ (0 : Int) ≤ -1 by decide)
      · exact absurd hfd (show ¬ (0 : Int) ≤ -1 by decide)
  | some x =>
      obtain ⟨owner, buf⟩ := x
      refine hs.filled rr len hown (fun j hji hj hfd => ?_) fun _ => ⟨buf, ?_, ?_⟩
      · -- the number that `dup` answers with is free, so no other entry has it
        obtain ⟨buf', hlive, hrecorded⟩ := hothers j hji hj hfd
        have hne : (s.p.physMap.entries j).fd ≠ files.lowestFree := by
          intro h
          rw [h, Files.lookup_lowestFree] at hlive
          cases hlive
        refine ⟨hne, buf', ?_, hrecorded⟩
        rw [Files.lookup_install, if_neg hne, hlive]
      · rw [Files.lookup_install, if_pos rfl]
      · rw [hopen _ _ hlookup]
        rfl

/-! ### Presentations -/

theorem Kept.of_same {s s' : Traced} (hs : Kept s) (hmap : s'.p.fdMap = s.p.fdMap)
    (hmem : s'.p.mem = s.p.mem) (hframe : s'.frame = s.frame) (hrots : s'.rots = s.rots)
    (hgen : s'.gen = s.gen) (hmarks : s'.marks = s.marks) : Kept s' := by
  refine ⟨?_, ?_, ?_⟩
  · rw [hmarks, hgen]
    exact hs.mark_le
  · unfold Truthful
    rw [hmarks, hgen, hmap, hmem, hrots, hframe]
    exact hs.truthful
  · rw [hrots, hmem, hframe]
    exact hs.untouched

theorem handedOn_ne_zero {s : Traced} {o : OverlayInfo} (ho : osdEligible o = true) :
    s.handedOn o ≠ 0 := by
  have hbuffer : o.buffer ≠ 0 := by
    unfold osdEligible at ho
    simp only [Bool.and_eq_true, bne_iff_ne] at ho
    exact ho.1.1.2
  have happly : (s.p.pin.apply o.buffer).2 ≠ 0 := by
    unfold Pin.apply
    split
    · exact hbuffer
    · split
      · exact hbuffer
      · assumption
  unfold Traced.handedOn osdArg
  rw [if_pos ho]
  cases s.p.mode <;> exact happly

/-- What the table leads to is the buffer recorded last. -/
theorem recorded_of_target {s : Traced} (hs : Held s) {phys : Word} (hphys : phys ≠ 0) {fd : Int}
    {buf : Buf} (htarget : s.target phys = some (fd, buf)) : s.recorded phys = some buf := by
  unfold Traced.target at htarget
  cases hfound : findPhys phys s.p.physMap with
  | none =>
      rw [hfound] at htarget
      cases htarget
  | some i =>
      have hi : (s.p.physMap.entries i).phys = phys := of_decide_eq_true (findIndex_some hfound)
      rw [hfound] at htarget
      dsimp only at htarget
      cases hlookup : s.p.files.lookup (s.p.physMap.entries i).fd with
      | none =>
          rw [hlookup] at htarget
          cases htarget
      | some x =>
          rw [hlookup] at htarget
          obtain ⟨buf', hreaches, hrecorded⟩ :=
            hs.reaches i (by rw [hi]; exact hphys) (Files.lookup_nonneg hlookup).1
          rw [hlookup, Option.some.injEq] at hreaches
          rw [hreaches] at htarget
          cases htarget
          rw [← hi]
          exact hrecorded

theorem setOverlay_sound {s : Traced} (hs : Sound s) {o : OverlayInfo} {mapped : Bool}
    (hok : CacheRecognises s (.setOverlay o mapped)) :
    Sound (s.step (.setOverlay o mapped)) ∧ PresentedOnce s (.setOverlay o mapped) := by
  show Sound (s.setOverlay o mapped) ∧ (osdEligible o = true → ∀ buf,
    s.recorded (s.handedOn o) = some buf → ShownOnce (s.setOverlay o mapped) buf (osdPixels o))
  have hpinned : Sound { s with p := { s.p with pin := (osdArg s.p.pin s.p.mode o).1 } } :=
    ⟨hs.held.of_same rfl rfl rfl rfl, hs.kept.of_same rfl rfl rfl rfl rfl rfl⟩
  unfold Traced.setOverlay
  dsimp only
  split
  case isFalse =>
    rename_i hnot
    refine ⟨hpinned, fun ho buf hrecorded => ?_⟩
    exact absurd ⟨ho, hs.held.cpu, (hok ho buf hrecorded).1⟩ hnot
  rename_i htaken
  have ho := htaken.1
  cases htarget : s.target (s.handedOn o) with
  | none =>
      refine ⟨hpinned, fun _ buf hrecorded => ?_⟩
      obtain ⟨fd, hreached, -⟩ := (hok ho buf hrecorded).2
      rw [htarget] at hreached
      cases hreached
  | some x =>
      obtain ⟨fd, buf⟩ := x
      have hrecorded := recorded_of_target hs.held (handedOn_ne_zero ho) htarget
      obtain ⟨fd', hreached, hrecognised⟩ := (hok ho buf hrecorded).2
      rw [htarget] at hreached
      cases hreached
      obtain ⟨hkept, hshown⟩ := rotateOnce_sound hpinned.kept
        ⟨hrecognised.inside, hrecognised.fresh, hrecognised.unchanged⟩
      refine ⟨⟨held_rotateOnce hpinned.held _ _ _, hkept⟩, fun _ buf' hrecorded' => ?_⟩
      rw [hrecorded, Option.some.injEq] at hrecorded'
      rw [← hrecorded']
      exact hshown

theorem layer_files (s : Traced) (l : GspLayer) (mapped : Bool) :
    (s.layer l mapped).p.files = s.p.files := by
  unfold Traced.layer
  split
  · split
    · rfl
    · unfold Traced.rotateOnce Shim.rotateOnce
      dsimp only
      split <;> rfl
  · rfl

theorem layer_sound {s : Traced} (hs : Sound s) {l : GspLayer} {mapped : Bool}
    (hok : LayerRecognised s l mapped) :
    Sound (s.layer l mapped) ∧
      (gspEligible l = true → ∀ x, s.p.files.lookup l.shareFd = some x →
        ShownOnce (s.layer l mapped) x.2 (gspPixels l)) ∧
      ∀ buf npix, ShownOnce s buf npix → ShownOnce (s.layer l mapped) buf npix := by
  unfold Traced.layer
  split
  case isFalse =>
    rename_i hnot
    refine ⟨hs, fun hl x hlookup => ?_, fun _ _ h => h⟩
    exact absurd ⟨hl, (hok hl x hlookup).1⟩ hnot
  rename_i htaken
  cases hlookup : s.p.files.lookup l.shareFd with
  | none => exact ⟨hs, fun _ x hx => (by cases hx), fun _ _ h => h⟩
  | some x =>
      obtain ⟨-, hrecognised⟩ := hok htaken.1 x hlookup
      obtain ⟨hkept, hshown⟩ := rotateOnce_sound hs.kept hrecognised
      refine ⟨⟨held_rotateOnce hs.held _ _ _, hkept⟩, fun _ y hy => ?_, fun buf npix h => ?_⟩
      · rw [Option.some.injEq] at hy
        rw [← hy]
        exact hshown
      · exact shownOnce_rotateOnce hs.kept hrecognised h

theorem gsp_sound {s : Traced} (hs : Sound s) {l0 l1 : GspLayer} {mapped0 mapped1 : Bool}
    (hok : CacheRecognises s (.gsp l0 l1 mapped0 mapped1)) :
    Sound (s.step (.gsp l0 l1 mapped0 mapped1)) ∧
      PresentedOnce s (.gsp l0 l1 mapped0 mapped1) := by
  obtain ⟨hok0, hok1⟩ := hok
  obtain ⟨hs0, hshown0, -⟩ := layer_sound hs hok0
  obtain ⟨hs1, hshown1, hkeeps⟩ := layer_sound hs0 hok1
  refine ⟨hs1, fun l hl heligible x hlookup => ?_⟩
  rw [List.mem_cons, List.mem_singleton] at hl
  obtain rfl | rfl := hl
  · exact hkeeps _ _ (hshown0 heligible x hlookup)
  · rw [← layer_files s l0 mapped0] at hlookup
    exact hshown1 heligible x hlookup

theorem kept_write {s : Traced} (hs : Kept s) (buf : Buf) (frame : List Byte) :
    Kept (s.step (.write buf frame)) := by
  refine ⟨?_, ?_, ?_⟩
  · intro j mark hmark
    have hle := hs.mark_le j mark hmark
    show mark.gen ≤ Function.update s.gen buf (s.gen buf + 1) mark.buf
    by_cases hbuf : mark.buf = buf
    · rw [hbuf] at hle ⊢
      rw [Function.update_self]
      omega
    · rw [Function.update_of_ne hbuf]
      exact hle
  · intro j mark hmark hgen
    have hle := hs.mark_le j mark hmark
    change mark.gen = Function.update s.gen buf (s.gen buf + 1) mark.buf at hgen
    by_cases hbuf : mark.buf = buf
    · rw [hbuf] at hle hgen
      rw [Function.update_self] at hgen
      omega
    · rw [Function.update_of_ne hbuf] at hgen
      obtain ⟨hhash, hone, hmem⟩ := hs.truthful j mark hmark hgen
      refine ⟨?_, ?_, ?_⟩
      · show (s.p.fdMap.entries j).hash =
          hashPixels mark.npix (Function.update s.p.mem buf frame mark.buf)
        rw [Function.update_of_ne hbuf]
        exact hhash
      · show Function.update s.rots buf 0 mark.buf = 1
        rw [Function.update_of_ne hbuf]
        exact hone
      · show Function.update s.p.mem buf frame mark.buf =
          rotatePixels mark.npix (Function.update s.frame buf frame mark.buf)
        rw [Function.update_of_ne hbuf, Function.update_of_ne hbuf]
        exact hmem
  · intro b hb
    change Function.update s.rots buf 0 b = 0 at hb
    show Function.update s.p.mem buf frame b = Function.update s.frame buf frame b
    by_cases hbuf : b = buf
    · rw [hbuf, Function.update_self, Function.update_self]
    · rw [Function.update_of_ne hbuf] at hb
      rw [Function.update_of_ne hbuf, Function.update_of_ne hbuf]
      exact hs.untouched b hb

/-! ### Runs -/

theorem sound_step {s : Traced} (hs : Sound s) (e : Event) (hok : CacheRecognises s e) :
    Sound (s.step e) ∧ PresentedOnce s e := by
  cases e with
  | openBuf buf =>
      exact ⟨⟨held_open hs.held buf, hs.kept.of_same rfl rfl rfl rfl rfl rfl⟩, trivial⟩
  | close fd =>
      have hkept : Kept (s.close fd) := by
        unfold Traced.close
        split
        · exact hs.kept.of_same rfl rfl rfl rfl rfl rfl
        · exact hs.kept
      exact ⟨⟨held_close hs.held fd, hkept⟩, trivial⟩
  | record phys fd len =>
      have hprocess : (Shim.record phys fd len s.p).fdMap = s.p.fdMap ∧
          (Shim.record phys fd len s.p).mem = s.p.mem := by
        unfold Shim.record
        split <;> exact ⟨rfl, rfl⟩
      have hkept : Kept (s.record phys fd len) :=
        hs.kept.of_same hprocess.1 hprocess.2 rfl rfl rfl rfl
      exact ⟨⟨held_record hs.held phys fd len, hkept⟩, trivial⟩
  | write buf frame =>
      exact ⟨⟨hs.held.of_same rfl rfl rfl rfl, kept_write hs.kept buf frame⟩, trivial⟩
  | setOverlay o mapped => exact setOverlay_sound hs hok
  | gsp l0 l1 mapped0 mapped1 => exact gsp_sound hs hok

/-- A process in CPU colour mode whose shim has seen nothing yet. -/
def Traced.initial (files : List (Option Buf)) (pinOff : Bool) (mem : Buf → List Byte) :
    Traced where
  p :=
    { files := files.map (Option.map fun buf => (.app, buf))
      fdMap := ⟨fun _ => ⟨0, 0⟩, 0⟩
      physMap := ⟨fun _ => ⟨0, 0, 0⟩, 0⟩
      pin := ⟨pinOff, 0⟩
      mode := .cpu
      mem }
  recorded := fun _ => none
  frame := mem
  rots := fun _ => 0
  gen := fun _ => 0
  marks := fun _ => none

theorem sound_initial (files : List (Option Buf)) (pinOff : Bool) (mem : Buf → List Byte) :
    Sound (.initial files pinOff mem) :=
  ⟨⟨rfl, fun _ _ h => absurd rfl h, fun _ h => absurd rfl h, fun _ _ h => absurd rfl h⟩,
    ⟨nofun, nofun, fun _ _ => rfl⟩⟩

/-- In every run of records, writes and presentations whose presentations reach their buffer and are
recognised by the cache, every buffer presented holds the frame written last, rotated exactly
once. -/
theorem presented_once {files : List (Option Buf)} {pinOff : Bool} {mem : Buf → List Byte}
    {events : List Event}
    (hevents : Run.EachStep Traced.step CacheRecognises (.initial files pinOff mem) events) :
    Run.EachStep Traced.step PresentedOnce (.initial files pinOff mem) events := by
  have halways : Run.Always Traced.step Sound (.initial files pinOff mem) events :=
    Run.always_of_eachStep (fun s e hs hok => (sound_step hs e hok).1)
      (sound_initial files pinOff mem) hevents
  exact Run.eachStep_of_always_of_eachStep (fun s e hs hok => (sound_step hs e hok).2)
    halways hevents

/-! ### Two pixels by two -/

def grey (v : Byte) : List Byte := [v, v, v, 255, v, v, v, 255, v, v, v, 255, v, v, v, 255]

def teal : List Byte := [0, 128, 130, 255, 0, 128, 130, 255, 0, 128, 130, 255, 0, 128, 131, 255]

def smallOsd (phys : Word) : OverlayInfo := ⟨2, 3, 0, 0, false, ⟨0, 0, 2, 2⟩, phys⟩

/-- Two buffers that take turns, one presented twice, one rewritten, and a layer of the
compositor. -/
def turnsRun : List Event :=
  [.openBuf 1, .record 0x9ffcc000 3 4096, .openBuf 2, .record 0xa0143000 5 4096, .write 1 teal,
    .setOverlay (smallOsd 0x9ffcc000) true, .setOverlay (smallOsd 0xa0143000) true,
    .setOverlay (smallOsd 0x9ffcc000) true, .write 1 (grey 7),
    .setOverlay (smallOsd 0x9ffcc000) true, .openBuf 3,
    .gsp ⟨true, 7, 2, 2⟩ ⟨false, 0, 0, 0⟩ true true]

theorem presented_once_turnsRun :
    Run.EachStep Traced.step PresentedOnce
      (.initial [some 0, some 0, some 0] true fun _ => teal) turnsRun :=
  presented_once (by decide)

/-- Recorded again after a lower descriptor has been closed, the buffer gets another number, and
with it a cache entry that does not know it. -/
def rerecordedRun : List Event :=
  [.openBuf 1, .record 0x9ffcc000 4 4096, .setOverlay (smallOsd 0x9ffcc000) true, .close 3,
    .record 0x9ffcc000 4 4096, .setOverlay (smallOsd 0x9ffcc000) true]

theorem rerecorded_rotated_twice :
    (Run.final Traced.step (.initial [some 0, some 0, some 0, some 9] false fun _ => teal)
        rerecordedRun).rots 1 = 2 ∧
      ¬ Run.EachStep Traced.step PresentedOnce
        (.initial [some 0, some 0, some 0, some 9] false fun _ => teal) rerecordedRun := by
  decide

end LineageA1000.Shim
