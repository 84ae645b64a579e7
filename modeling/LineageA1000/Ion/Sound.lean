import LineageA1000.Ion.Ioctl

/-!
# What holds while calls are in flight

Every step of a call keeps the counts true to the references, as long as each free has a reference
to give back. The argument goes by what a thread can reach: it moves by what it holds, by the numbers
and the tree of its client, and by addresses that nobody used.
-/

namespace LineageA1000.Ion

open RefCount

variable {Tid : Type*}

/-- The buffer a call of `ION_IOC_ALLOC` has made, until its handle is added. -/
def newBuffer (s : Store) : Pc → Option BufferId
  | .allocBuffer _ b | .allocHandle _ b _ => some b
  | .add _ h none => some (s.handle h).buffer
  | _ => none

/-- Nobody but the thread knows the buffer. -/
structure Private (s : System Tid) (t : Tid) (b : BufferId) : Prop where
  dmaBufs : ∀ d ∈ s.store.dmaBufs, s.store.dmaBuffer d ≠ b
  handles : ∀ h ∈ s.store.handles.live, (s.store.handle h).buffer = b ↔ (s.pc t).held = some h
  holders : ∀ u, (s.pc u).heldBuffer = some b → u = t

structure Sound [Fintype Tid] (s : System Tid) : Prop where
  consistent : Consistent s.store (handleRefs s.owned s.pc) (bufferRefs s.pc)
  owned : ∀ h, s.owned h ≠ 0 → (s.store.handle h).id ≠ 0
  placed : ∀ t h, (s.pc t).held = some h →
    (s.pc t).client = some (s.store.handle h).client ∧
      ((s.store.handle h).id = 0 ↔ (s.pc t).adding = true)
  alone : ∀ t u h, (s.pc t).adding = true → (s.pc t).held = some h → (s.pc u).held = some h → u = t
  dma : ∀ t, ∀ d, (s.pc t).heldDma = some d → d ∈ s.store.dmaBufs
  exporting : ∀ t u d, (s.pc t).exporting = some d → (s.pc u).heldDma = some d → u = t
  fresh : ∀ t b, newBuffer s.store (s.pc t) = some b → Private s t b
  running : ∀ t, (s.pc t).isHung = false

/-- The buffers a thread can name: by a reference, a dma-buf or a handle that is added. -/
def Reaches (s : System Tid) (t : Tid) (b : BufferId) : Prop :=
  (s.pc t).heldBuffer = some b ∨ (∃ d, (s.pc t).heldDma = some d ∧ s.store.dmaBuffer d = b) ∨
    ∃ h, (s.pc t).held = some h ∧ (s.pc t).adding = false ∧ (s.store.handle h).buffer = b

theorem Pc.heldDma_of_exporting {p : Pc} {d : DmaBufId} (h : p.exporting = some d) :
    p.heldDma = some d := by
  cases p with
  | shareExported c x e => exact h
  | _ => cases h

theorem newBuffer_cases {s : Store} {p : Pc} {b : BufferId} (h : newBuffer s p = some b) :
    p.heldBuffer = some b ∨ ∃ x, p.held = some x ∧ (s.handle x).buffer = b := by
  cases p with
  | allocBuffer c x => exact .inl h
  | allocHandle c x y => exact .inl h
  | add c x d =>
      cases d with
      | none => exact .inr ⟨x, rfl, Option.some.inj h⟩
      | some d => cases h
  | _ => cases h

theorem adding_of_newBuffer {s : Store} {p : Pc} {b : BufferId} {h : HandleId}
    (hnew : newBuffer s p = some b) (hheld : p.held = some h) : p.adding = true := by
  cases p with
  | allocBuffer c x => cases hheld
  | allocHandle c x y => rfl
  | add c x d => rfl
  | _ => cases hnew

section Sound

variable [Fintype Tid] {s : System Tid} {t u : Tid} {h : HandleId} {b : BufferId}

theorem Sound.held_live (hs : Sound s) (hheld : (s.pc t).held = some h) :
    h ∈ s.store.handles.live := by
  apply hs.consistent.handles.mem
  have hone : (s.pc t).holds h = 1 := Pc.holds_eq_one hheld
  have hle := share_le_sum (fun p : Pc => p.holds h) s.pc t
  rw [handleRefs]
  omega

theorem Sound.heldBuffer_live (hs : Sound s) (hheld : (s.pc t).heldBuffer = some b) :
    b ∈ s.store.buffers.live := by
  apply hs.consistent.buffers.mem
  have hone : (s.pc t).holdsBuffer b ≠ 0 := Pc.holdsBuffer_ne_zero.2 hheld
  have hle := share_le_sum (fun p : Pc => p.holdsBuffer b) s.pc t
  simp only [bufferRefs]
  omega

theorem Sound.owned_live (hs : Sound s) (howned : s.owned h ≠ 0) : h ∈ s.store.handles.live := by
  apply hs.consistent.handles.mem
  rw [handleRefs]
  omega

theorem Sound.reaches_live (hs : Sound s) (hreach : Reaches s t b) :
    b ∈ s.store.buffers.live := by
  rcases hreach with hheld | ⟨d, hheld, rfl⟩ | ⟨h, hheld, -, rfl⟩
  · exact hs.heldBuffer_live hheld
  · exact hs.consistent.dmaBuffer_live (hs.dma t d hheld)
  · exact hs.consistent.buffer_live (hs.held_live hheld)

theorem Sound.newBuffer_live (hs : Sound s) (hnew : newBuffer s.store (s.pc t) = some b) :
    b ∈ s.store.buffers.live := by
  rcases newBuffer_cases hnew with hheld | ⟨x, hheld, rfl⟩
  · exact hs.heldBuffer_live hheld
  · exact hs.consistent.buffer_live (hs.held_live hheld)

/-- A new buffer is out of reach for the other threads. -/
theorem Sound.not_reaches (hs : Sound s) (hne : t ≠ u)
    (hnew : newBuffer s.store (s.pc u) = some b) : ¬ Reaches s t b := by
  have hprivate := hs.fresh u b hnew
  rintro (hheld | ⟨d, hheld, hd⟩ | ⟨h, hheld, hadding, hh⟩)
  · exact hne (hprivate.holders t hheld)
  · exact hprivate.dmaBufs d (hs.dma t d hheld) hd
  · have hother := (hprivate.handles h (hs.held_live hheld)).1 hh
    have hzero : (s.store.handle h).id = 0 :=
      (hs.placed u h hother).2.2 (adding_of_newBuffer hnew hother)
    rw [(hs.placed t h hheld).2.1 hzero] at hadding
    cases hadding

end Sound

/-! ### One thread moves -/

section Moved

variable [Fintype Tid] [DecidableEq Tid] {s : System Tid} {t : Tid} {store : Store} {p : Pc}
  {owned : HandleId → Nat}

theorem handleRefs_update (owned owned' : HandleId → Nat) (pc : Tid → Pc) (t : Tid) (p : Pc)
    (x : HandleId) : handleRefs owned' (Function.update pc t p) x + owned x + (pc t).holds x =
      handleRefs owned pc x + owned' x + p.holds x := by
  have hsum := sum_update (fun p : Pc => p.holds x) pc t p
  simp only [handleRefs]
  omega

theorem bufferRefs_update (pc : Tid → Pc) (t : Tid) (p : Pc) (x : BufferId) :
    bufferRefs (Function.update pc t p) x + (pc t).holdsBuffer x =
      bufferRefs pc x + p.holdsBuffer x :=
  sum_update (fun p : Pc => p.holdsBuffer x) pc t p

/-- What one thread can do to the rest by going on to `p`. -/
structure Moved (s : System Tid) (t : Tid) (store : Store) (p : Pc) (owned : HandleId → Nat) :
    Prop where
  consistent : Consistent store (handleRefs owned (Function.update s.pc t p))
    (bufferRefs (Function.update s.pc t p))
  names : ∀ h ∈ s.store.handles.live, (store.handle h).client = (s.store.handle h).client ∧
    (store.handle h).buffer = (s.store.handle h).buffer
  numbered : ∀ h ∈ s.store.handles.live, (store.handle h).id = (s.store.handle h).id ∨
    (s.pc t).held = some h ∧ (s.pc t).adding = true
  made : ∀ h ∈ store.handles.live, h ∈ s.store.handles.live ∨
    p.held = some h ∧ p.adding = true ∧ Reaches s t (store.handle h).buffer
  owns : ∀ h, owned h ≠ 0 → (store.handle h).id ≠ 0
  placed : ∀ h, p.held = some h →
    p.client = some (store.handle h).client ∧ ((store.handle h).id = 0 ↔ p.adding = true)
  held : ∀ h, p.held = some h →
    (s.pc t).held = some h ∧ ((s.pc t).adding = true ∨ p.adding = false) ∨
      h ∉ s.store.handles.live ∨ (s.store.handle h).id ≠ 0 ∧ p.adding = false
  heldBuffer : ∀ b, p.heldBuffer = some b → Reaches s t b ∨ b ∉ s.store.buffers.live
  dmaBufs : ∀ d ∈ store.dmaBufs,
    d ∈ s.store.dmaBufs ∧ store.dmaBuffer d = s.store.dmaBuffer d ∨
      d ∉ s.store.dmaBufs ∧ Reaches s t (store.dmaBuffer d)
  dma : ∀ u, u ≠ t → ∀ d, (s.pc u).heldDma = some d → d ∈ store.dmaBufs
  heldDma : ∀ d, p.heldDma = some d → d ∈ store.dmaBufs ∧ ((s.pc t).heldDma = some d ∨
    d ∉ s.store.dmaBufs ∨ ∀ u, (s.pc u).exporting ≠ some d)
  exporting : ∀ d, p.exporting = some d → d ∉ s.store.dmaBufs
  fresh : ∀ b, newBuffer store p = some b → Private ⟨store, Function.update s.pc t p, owned⟩ t b
  running : p.isHung = false

theorem newBuffer_congr {s s' : Store} {p : Pc}
    (h : ∀ x, p.held = some x → (s'.handle x).buffer = (s.handle x).buffer) :
    newBuffer s' p = newBuffer s p := by
  cases p with
  | add c x d =>
      cases d with
      | none => exact congrArg some (h x rfl)
      | some d => rfl
  | _ => rfl

/-- What is sound stays so when one thread moves. -/
theorem Moved.sound (h : Moved s t store p owned) (hs : Sound s) :
    Sound { s.moved t store p with owned := owned } := by
  have hself : Function.update s.pc t p t = p := Function.update_self ..
  have hother : ∀ u, u ≠ t → Function.update s.pc t p u = s.pc u :=
    fun u hu => Function.update_of_ne hu ..
  constructor
  · exact h.consistent
  · exact h.owns
  · intro u x hx
    simp only [System.moved] at hx ⊢
    by_cases hu : u = t
    · subst hu
      rw [hself] at hx ⊢
      exact h.placed x hx
    · rw [hother u hu] at hx ⊢
      obtain ⟨hclient, hadding⟩ := hs.placed u x hx
      have hlive := hs.held_live hx
      rw [(h.names x hlive).1]
      refine ⟨hclient, ?_⟩
      rcases h.numbered x hlive with hid | ⟨hheld, hadd⟩
      · rw [hid]
        exact hadding
      · exact absurd (hs.alone t u x hadd hheld hx) hu
  · intro u v x hadding hu hv
    simp only [System.moved] at hadding hu hv
    by_cases hut : u = t
    · subst hut
      by_contra hne
      rw [hself] at hadding hu
      rw [hother v hne] at hv
      rcases h.held x hu with ⟨hheld, hadd | hadd⟩ | hdead | ⟨-, hadd⟩
      · exact hne (hs.alone u v x hadd hheld hv)
      · rw [hadd] at hadding
        cases hadding
      · exact hdead (hs.held_live hv)
      · rw [hadd] at hadding
        cases hadding
    · rw [hother u hut] at hadding hu
      by_cases hvt : v = t
      · subst hvt
        rw [hself] at hv
        rcases h.held x hv with ⟨hheld, -⟩ | hdead | ⟨hid, -⟩
        · exact hs.alone u v x hadding hu hheld
        · exact absurd (hs.held_live hu) hdead
        · exact absurd ((hs.placed u x hu).2.2 hadding) hid
      · rw [hother v hvt] at hv
        exact hs.alone u v x hadding hu hv
  · intro u d hd
    simp only [System.moved] at hd ⊢
    by_cases hu : u = t
    · subst hu
      rw [hself] at hd
      exact (h.heldDma d hd).1
    · rw [hother u hu] at hd
      exact h.dma u hu d hd
  · intro u v d hu hv
    simp only [System.moved] at hu hv
    by_cases hut : u = t
    · subst hut
      by_contra hne
      rw [hself] at hu
      rw [hother v hne] at hv
      exact h.exporting d hu (hs.dma v d hv)
    · rw [hother u hut] at hu
      by_cases hvt : v = t
      · subst hvt
        rw [hself] at hv
        rcases (h.heldDma d hv).2 with hheld | hdead | hnone
        · exact hs.exporting u v d hu hheld
        · exact absurd (hs.dma u d (Pc.heldDma_of_exporting hu)) hdead
        · exact absurd hu (hnone u)
      · rw [hother v hvt] at hv
        exact hs.exporting u v d hu hv
  · intro u b hb
    by_cases hu : u = t
    · subst hu
      simp only [System.moved, hself] at hb
      exact h.fresh b hb
    · simp only [System.moved, hother u hu] at hb
      rw [newBuffer_congr fun x hx => (h.names x (hs.held_live hx)).2] at hb
      have hprivate := hs.fresh u b hb
      have hreach : ¬ Reaches s t b := hs.not_reaches (Ne.symm hu) hb
      constructor
      · intro d hd heq
        simp only [System.moved] at hd heq
        rcases h.dmaBufs d hd with ⟨hold, hsame⟩ | ⟨-, hnew⟩
        · exact hprivate.dmaBufs d hold (hsame ▸ heq)
        · exact hreach (heq ▸ hnew)
      · intro x hx
        simp only [System.moved, hother u hu] at hx ⊢
        by_cases hold : x ∈ s.store.handles.live
        · rw [(h.names x hold).2]
          exact hprivate.handles x hold
        · have hnew := ((h.made x hx).resolve_left hold).2.2
          refine ⟨fun hb => absurd (hb ▸ hnew) hreach, fun hheld => ?_⟩
          exact absurd (hs.held_live hheld) hold
      · intro v hv
        simp only [System.moved] at hv
        by_cases hvt : v = t
        · subst hvt
          rw [hself] at hv
          rcases h.heldBuffer b hv with hnew | hdead
          · exact absurd hnew hreach
          · exact absurd (hs.newBuffer_live hb) hdead
        · rw [hother v hvt] at hv
          exact hprivate.holders v hv
  · intro u
    simp only [System.moved]
    by_cases hu : u = t
    · subst hu
      rw [hself]
      exact h.running
    · rw [hother u hu]
      exact hs.running u

/-- A tree grows by nothing but the handle that is being added. -/
theorem Moved.tree (h : Moved s t store p owned) (hs : Sound s) {c : ClientId} {e : HandleId}
    (he : e ∈ store.tree c) : e ∈ s.store.tree c ∨
      (s.pc t).held = some e ∧ (s.pc t).adding = true ∧ (s.pc t).client = some c := by
  obtain ⟨hlive, hclient, hid⟩ := (h.consistent.tree c e).1 he
  by_cases hold : e ∈ s.store.handles.live
  · rw [(h.names e hold).1] at hclient
    rcases h.numbered e hold with hsame | ⟨hheld, hadding⟩
    · exact .inl ((hs.consistent.tree c e).2 ⟨hold, hclient, hsame ▸ hid⟩)
    · exact .inr ⟨hheld, hadding, hclient ▸ (hs.placed t e hheld).1⟩
  · obtain ⟨hheld, hadding, -⟩ := (h.made e hlive).resolve_left hold
    exact absurd ((h.placed e hheld).2.2 hadding) hid

/-! ### The moves -/

section Refs

variable {owned : HandleId → Nat} {pc : Tid → Pc} {h : HandleId} {b : BufferId}

theorem handleRefs_keep (hheld : p.held = (pc t).held) (x : HandleId) :
    handleRefs owned (Function.update pc t p) x = handleRefs owned pc x := by
  have hx := handleRefs_update owned owned pc t p x
  have hsame : p.holds x = (pc t).holds x := by rw [Pc.holds, Pc.holds, hheld]
  omega

theorem handleRefs_drop (hold : (pc t).held = some h) (hnew : p.held = none) (x : HandleId) :
    handleRefs owned (Function.update pc t p) x + single h x = handleRefs owned pc x := by
  have hx := handleRefs_update owned owned pc t p x
  have hzero : p.holds x = 0 := by rw [Pc.holds, hnew, Option.elim_none]
  rw [Pc.holds_of_held hold] at hx
  omega

theorem handleRefs_take (hold : (pc t).held = none) (hnew : p.held = some h) (x : HandleId) :
    handleRefs owned (Function.update pc t p) x = handleRefs owned pc x + single h x := by
  have hx := handleRefs_update owned owned pc t p x
  have hzero : (pc t).holds x = 0 := by rw [Pc.holds, hold, Option.elim_none]
  rw [Pc.holds_of_held hnew] at hx
  omega

theorem bufferRefs_keep (hheld : p.heldBuffer = (pc t).heldBuffer) (x : BufferId) :
    bufferRefs (Function.update pc t p) x = bufferRefs pc x := by
  have hx := bufferRefs_update pc t p x
  have hsame : p.holdsBuffer x = (pc t).holdsBuffer x := by
    rw [Pc.holdsBuffer, Pc.holdsBuffer, hheld]
  omega

theorem bufferRefs_drop (hold : (pc t).heldBuffer = some b) (hnew : p.heldBuffer = none)
    (x : BufferId) : bufferRefs (Function.update pc t p) x + single b x = bufferRefs pc x := by
  have hx := bufferRefs_update pc t p x
  have hzero : p.holdsBuffer x = 0 := by rw [Pc.holdsBuffer, hnew, Option.elim_none]
  rw [Pc.holdsBuffer_of_held hold] at hx
  omega

theorem bufferRefs_take (hold : (pc t).heldBuffer = none) (hnew : p.heldBuffer = some b)
    (x : BufferId) : bufferRefs (Function.update pc t p) x = bufferRefs pc x + single b x := by
  have hx := bufferRefs_update pc t p x
  have hzero : (pc t).holdsBuffer x = 0 := by rw [Pc.holdsBuffer, hold, Option.elim_none]
  rw [Pc.holdsBuffer_of_held hnew] at hx
  omega

end Refs

variable {h : HandleId} {b : BufferId} {c : ClientId}

/-- A move after which handles and dma-bufs stand for what they stood for. -/
theorem Sound.quiet (hs : Sound s)
    (hcons : Consistent store (handleRefs owned (Function.update s.pc t p))
      (bufferRefs (Function.update s.pc t p)))
    (hnames : SameNames s.store store) (hlive : store.handles.live ⊆ s.store.handles.live)
    (howns : ∀ h, owned h ≠ 0 → (s.store.handle h).id ≠ 0)
    (hheld : ∀ h, p.held = some h →
      (s.pc t).held = some h ∧ p.client = (s.pc t).client ∧ p.adding = (s.pc t).adding ∨
        (s.store.handle h).id ≠ 0 ∧ p.client = some (s.store.handle h).client ∧ p.adding = false)
    (hbuffer : ∀ b, p.heldBuffer = some b → Reaches s t b)
    (hdma : ∀ d, p.heldDma = some d → (s.pc t).heldDma = some d ∨
      d ∈ s.store.dmaBufs ∧ ∀ u, (s.pc u).exporting ≠ some d)
    (hexporting : p.exporting = none)
    (hfresh : ∀ b, newBuffer s.store p = some b →
      newBuffer s.store (s.pc t) = some b ∧ p.held = (s.pc t).held)
    (hrunning : p.isHung = false) : Moved s t store p owned := by
  have hself : Function.update s.pc t p t = p := Function.update_self ..
  constructor
  · exact hcons
  · intro h _
    rw [hnames.handle]
    exact ⟨rfl, rfl⟩
  · intro h _
    rw [hnames.handle]
    exact .inl rfl
  · exact fun h hh => .inl (hlive hh)
  · intro h hh
    rw [hnames.handle]
    exact howns h hh
  · intro h hh
    rw [hnames.handle]
    rcases hheld h hh with ⟨hold, hclient, hadding⟩ | ⟨hid, hclient, hadding⟩
    · rw [hclient, hadding]
      exact hs.placed t h hold
    · rw [hadding]
      exact ⟨hclient, by simp [hid]⟩
  · intro h hh
    rcases hheld h hh with ⟨hold, -, hadding⟩ | ⟨hid, -, hadding⟩
    · refine .inl ⟨hold, ?_⟩
      rw [hadding]
      cases (s.pc t).adding <;> simp
    · exact .inr (.inr ⟨hid, hadding⟩)
  · exact fun b hb => .inl (hbuffer b hb)
  · intro d hd
    rw [hnames.dmaBufs] at hd
    rw [hnames.dmaBuffer]
    exact .inl ⟨hd, rfl⟩
  · intro u _ d hd
    rw [hnames.dmaBufs]
    exact hs.dma u d hd
  · intro d hd
    rw [hnames.dmaBufs]
    rcases hdma d hd with hold | ⟨hmem, hnone⟩
    · exact ⟨hs.dma t d hold, .inl hold⟩
    · exact ⟨hmem, .inr (.inr hnone)⟩
  · intro d hd
    rw [hexporting] at hd
    cases hd
  · intro b hb
    rw [newBuffer_congr (s := s.store) fun x _ => by rw [hnames.handle]] at hb
    obtain ⟨hnew, hsame⟩ := hfresh b hb
    have hprivate := hs.fresh t b hnew
    constructor
    · simp only [hnames.dmaBufs, hnames.dmaBuffer]
      exact hprivate.dmaBufs
    · intro x hx
      simp only [hnames.handle, hself]
      rw [hsame]
      exact hprivate.handles x (hlive hx)
    · intro u hu
      by_contra hne
      simp only [Function.update_of_ne hne] at hu
      exact hne (hprivate.holders u hu)
  · exact hrunning

/-- A move that changes nothing but where the thread stands. -/
theorem Sound.goes (hs : Sound s) (hheld : p.held = (s.pc t).held)
    (hplaced : p.held = none ∨ p.client = (s.pc t).client ∧ p.adding = (s.pc t).adding)
    (hold : (s.pc t).heldBuffer = none) (hnew : p.heldBuffer = none)
    (hdma : ∀ d, p.heldDma = some d → (s.pc t).heldDma = some d) (hexporting : p.exporting = none)
    (hfresh : newBuffer s.store p = none) (hrunning : p.isHung = false) :
    Moved s t s.store p s.owned := by
  refine hs.quiet (hs.consistent.congr (handleRefs_keep hheld) (bufferRefs_keep ?_)) (.refl _)
    subset_rfl hs.owned (fun h hh => ?_) (fun b hb => ?_) (fun d hd => .inl (hdma d hd)) hexporting
    (fun b hb => ?_) hrunning
  · rw [hold, hnew]
  · rcases hplaced with hnone | hsame
    · rw [hnone] at hh
      cases hh
    · exact .inl ⟨hheld ▸ hh, hsame⟩
  · rw [hnew] at hb
    cases hb
  · rw [hfresh] at hb
    cases hb

/-- `ion_handle_put` of the reference the thread holds. -/
theorem Sound.puts (hs : Sound s) (hheld : (s.pc t).held = some h)
    (hold : (s.pc t).heldBuffer = none) (hnone : p.held = none) (hnew : p.heldBuffer = none)
    (hdma : ∀ d, p.heldDma = some d → (s.pc t).heldDma = some d) (hexporting : p.exporting = none)
    (hfresh : newBuffer s.store p = none) (hrunning : p.isHung = false) :
    ∃ store, handlePut s.store h = some store ∧ Moved s t store p s.owned := by
  obtain ⟨store, hput, hcons, hnames, hlive, -⟩ :=
    hs.consistent.handlePut (handleRefs_drop hheld hnone)
  refine ⟨store, hput, hs.quiet (hcons.congr (fun _ => rfl) (bufferRefs_keep ?_)) hnames hlive
    hs.owned (fun h hh => ?_) (fun b hb => ?_) (fun d hd => .inl (hdma d hd)) hexporting
    (fun b hb => ?_) hrunning⟩
  · rw [hold, hnew]
  · rw [hnone] at hh
    cases hh
  · rw [hnew] at hb
    cases hb
  · rw [hfresh] at hb
    cases hb

/-- `ion_buffer_put` of the reference the thread holds. -/
theorem Sound.putsBuffer (hs : Sound s) (hold : (s.pc t).heldBuffer = some b)
    (hnew : p.heldBuffer = none) (hheld : p.held = (s.pc t).held)
    (hplaced : p.held = none ∨ p.client = (s.pc t).client ∧ p.adding = (s.pc t).adding)
    (hdma : p.heldDma = none) (hexporting : p.exporting = none)
    (hfresh : ∀ x, newBuffer s.store p = some x → newBuffer s.store (s.pc t) = some x)
    (hrunning : p.isHung = false) :
    ∃ store, bufferPut s.store b = some store ∧ Moved s t store p s.owned := by
  obtain ⟨store, hput, hcons, hnames, hhandles, -⟩ :=
    hs.consistent.bufferPut (bufferRefs_drop hold hnew)
  refine ⟨store, hput, hs.quiet (hcons.congr (handleRefs_keep hheld) fun _ => rfl) hnames
    (by rw [hhandles]) hs.owned (fun h hh => ?_) (fun b hb => ?_) (fun d hd => ?_) hexporting
    (fun x hx => ⟨hfresh x hx, hheld⟩) hrunning⟩
  · rcases hplaced with hnone | hsame
    · rw [hnone] at hh
      cases hh
    · exact .inl ⟨hheld ▸ hh, hsame⟩
  · rw [hnew] at hb
    cases hb
  · rw [hdma] at hd
    cases hd

/-- `ion_handle_get` of a handle that was found by its number or in the tree. -/
theorem Sound.gets (hs : Sound s) (hlive : h ∈ s.store.handles.live)
    (hid : (s.store.handle h).id ≠ 0) (hclient : p.client = some (s.store.handle h).client)
    (hnone : (s.pc t).held = none) (hheld : p.held = some h) (hadding : p.adding = false)
    (hold : (s.pc t).heldBuffer = none) (hnew : p.heldBuffer = none)
    (hdma : ∀ d, p.heldDma = some d → (s.pc t).heldDma = some d) (hexporting : p.exporting = none)
    (hfresh : newBuffer s.store p = none) (hrunning : p.isHung = false) :
    ∃ store, handleGet s.store h = some store ∧ Moved s t store p s.owned := by
  obtain ⟨store, hget, hcons, hnames, hsame, -⟩ :=
    hs.consistent.handleGet hlive (handleRefs_take hnone hheld)
  refine ⟨store, hget, hs.quiet (hcons.congr (fun _ => rfl) (bufferRefs_keep ?_)) hnames
    (by rw [hsame]) hs.owned (fun x hx => ?_) (fun b hb => ?_) (fun d hd => .inl (hdma d hd))
    hexporting (fun b hb => ?_) hrunning⟩
  · rw [hold, hnew]
  · obtain rfl : h = x := Option.some.inj (hheld.symm.trans hx)
    exact .inr ⟨hid, hclient, hadding⟩
  · rw [hnew] at hb
    cases hb
  · rw [hfresh] at hb
    cases hb

/-- `ion_handle_create` for a buffer the thread can name. -/
theorem Sound.creates (hs : Sound s) (hreach : Reaches s t b) (hdead : h ∉ s.store.handles.live)
    (hclient : p.client = some c) (hnone : (s.pc t).held = none) (hheld : p.held = some h)
    (hadding : p.adding = true) (hbuffer : p.heldBuffer = (s.pc t).heldBuffer)
    (hdma : p.heldDma = (s.pc t).heldDma) (hexporting : p.exporting = none)
    (hfresh : ∀ x, newBuffer s.store p = some x → newBuffer s.store (s.pc t) = some x ∧
      p.heldBuffer = some x ∧ x = b)
    (hp : ∀ c x, p ≠ .add c x none) (hrunning : p.isHung = false) :
    ∃ store, handleCreate s.store c b h = some store ∧ Moved s t store p s.owned := by
  obtain ⟨store, hcreate, hcons, hlive, hhandle, hdmaBufs, hdmaBuffer, -⟩ :=
    hs.consistent.handleCreate (hs.reaches_live hreach) hdead c (handleRefs_take hnone hheld)
  have hself : Function.update s.pc t p t = p := Function.update_self ..
  have hsame : ∀ x ∈ s.store.handles.live, store.handle x = s.store.handle x := by
    intro x hx
    rw [hhandle, Function.update_of_ne (ne_of_mem_of_not_mem hx hdead)]
  have hmade : store.handle h = ⟨c, b, 0⟩ := by rw [hhandle, Function.update_self]
  refine ⟨store, hcreate, ?_⟩
  constructor
  · exact hcons.congr (fun _ => rfl) (bufferRefs_keep hbuffer)
  · intro x hx
    rw [hsame x hx]
    exact ⟨rfl, rfl⟩
  · intro x hx
    rw [hsame x hx]
    exact .inl rfl
  · intro x hx
    rw [hlive, Finset.mem_insert] at hx
    rcases hx with rfl | hx
    · rw [hmade]
      exact .inr ⟨hheld, hadding, hreach⟩
    · exact .inl hx
  · intro x hx
    rw [hsame x (hs.owned_live hx)]
    exact hs.owned x hx
  · intro x hx
    obtain rfl : h = x := Option.some.inj (hheld.symm.trans hx)
    rw [hmade]
    exact ⟨hclient, by simp [hadding]⟩
  · intro x hx
    obtain rfl : h = x := Option.some.inj (hheld.symm.trans hx)
    exact .inr (.inl hdead)
  · intro x hx
    rw [hbuffer] at hx
    exact .inl (.inl hx)
  · intro d hd
    rw [hdmaBufs] at hd
    rw [hdmaBuffer]
    exact .inl ⟨hd, rfl⟩
  · intro u _ d hd
    rw [hdmaBufs]
    exact hs.dma u d hd
  · intro d hd
    rw [hdma] at hd
    rw [hdmaBufs]
    exact ⟨hs.dma t d hd, .inl hd⟩
  · intro d hd
    rw [hexporting] at hd
    cases hd
  · intro x hx
    have hold : newBuffer s.store p = some x := by
      cases p with
      | add c' y d =>
          cases d with
          | none => exact absurd rfl (hp c' y)
          | some d => cases hx
      | _ => exact hx
    obtain ⟨hnew, hxheld, rfl⟩ := hfresh x hold
    have hprivate := hs.fresh t x hnew
    constructor
    · simp only [hdmaBufs, hdmaBuffer]
      exact hprivate.dmaBufs
    · intro y hy
      simp only [hself]
      rw [hlive, Finset.mem_insert] at hy
      rcases hy with rfl | hy
      · rw [hmade]
        exact ⟨fun _ => hheld, fun _ => rfl⟩
      · have hnever := hprivate.handles y hy
        rw [hnone] at hnever
        have hne : h ≠ y := fun heq => hdead (heq ▸ hy)
        rw [hsame y hy, hnever, hheld]
        simp [hne]
    · intro u hu
      by_contra hne
      simp only [Function.update_of_ne hne] at hu
      exact hne (hprivate.holders u hu)
  · exact hrunning

theorem held_added (c : ClientId) (h : HandleId) (d : Option DmaBufId) :
    (added c h d).held = some h := by cases d <;> rfl

/-- A handle that gets its number, in a tree without another for its buffer. -/
theorem Sound.adds (hs : Sound s) {d : Option DmaBufId} (hp : s.pc t = .add c h d) {id : Nat}
    (hid : id ≠ 0) (hfree : s.store.idr c id = none)
    (hnone : ¬ Standing s.store c (s.store.handle h).buffer) :
    ∃ store, handleAdd s.store c h id = some (store, true) ∧
      Moved s t store (added c h d) s.owned := by
  have hheld : (s.pc t).held = some h := by rw [hp]; rfl
  have hadding : (s.pc t).adding = true := by rw [hp]; rfl
  obtain ⟨hclient, hzero⟩ := hs.placed t h hheld
  have hc : (s.store.handle h).client = c := by
    rw [hp] at hclient
    exact (Option.some.inj hclient).symm
  obtain ⟨store, hadd, hcons, hhandles, hhandle, hdmaBufs, hdmaBuffer, -⟩ :=
    hs.consistent.handleAdd (hs.held_live hheld) hc (hzero.2 hadding) hnone hid hfree
  have hdma : ∀ e, (added c h d).heldDma = some e → (s.pc t).heldDma = some e := by
    intro e he
    rw [hp]
    cases d with
    | none => cases he
    | some d => exact he
  have hself : store.handle h = { s.store.handle h with id } := by
    rw [hhandle, Function.update_self]
  have hother : ∀ x, x ≠ h → store.handle x = s.store.handle x := by
    intro x hx
    rw [hhandle, Function.update_of_ne hx]
  refine ⟨store, hadd, ?_⟩
  constructor
  · refine hcons.congr (handleRefs_keep ?_) (bufferRefs_keep ?_)
    · rw [hheld, held_added]
    · rw [hp]
      cases d <;> rfl
  · intro x _
    by_cases hx : x = h
    · subst hx
      rw [hself]
      exact ⟨rfl, rfl⟩
    · rw [hother x hx]
      exact ⟨rfl, rfl⟩
  · intro x _
    by_cases hx : x = h
    · subst hx
      exact .inr ⟨hheld, hadding⟩
    · rw [hother x hx]
      exact .inl rfl
  · intro x hx
    rw [hhandles] at hx
    exact .inl hx
  · intro x hx
    by_cases hxh : x = h
    · subst hxh
      rw [hself]
      exact hid
    · rw [hother x hxh]
      exact hs.owned x hx
  · intro x hx
    obtain rfl : h = x := Option.some.inj ((held_added c h d).symm.trans hx)
    rw [hself]
    constructor
    · rw [hc]
      cases d <;> rfl
    · cases d <;> simpa [added, Pc.adding] using hid
  · intro x hx
    obtain rfl : h = x := Option.some.inj ((held_added c h d).symm.trans hx)
    exact .inl ⟨hheld, .inl hadding⟩
  · intro x hx
    cases d <;> cases hx
  · intro e he
    rw [hdmaBufs] at he
    rw [hdmaBuffer]
    exact .inl ⟨he, rfl⟩
  · intro u _ e he
    rw [hdmaBufs]
    exact hs.dma u e he
  · intro e he
    rw [hdmaBufs]
    exact ⟨hs.dma t e (hdma e he), .inl (hdma e he)⟩
  · intro e he
    cases d <;> cases he
  · intro x hx
    cases d <;> cases hx
  · cases d <;> rfl

/-- The number is given out, and with it the reference. -/
theorem Sound.gives (hs : Sound s) {cleanup : Bool} (hp : s.pc t = .copyOut c h cleanup) :
    Moved s t s.store .idle (Function.update s.owned h (s.owned h + 1)) := by
  have hheld : (s.pc t).held = some h := by rw [hp]; rfl
  have hid : (s.store.handle h).id ≠ 0 := by
    intro hzero
    have hadding := (hs.placed t h hheld).2.1 hzero
    rw [hp] at hadding
    cases hadding
  refine hs.quiet (hs.consistent.congr (fun x => ?_) (bufferRefs_keep ?_)) (.refl _) subset_rfl
    (fun x hx => ?_) (fun x hx => ?_) (fun b hb => ?_) (fun d hd => ?_) rfl (fun b hb => ?_) rfl
  · have hrefs := handleRefs_update s.owned (Function.update s.owned h (s.owned h + 1)) s.pc t
      .idle x
    have hzero : Pc.idle.holds x = 0 := rfl
    rw [Pc.holds_of_held hheld] at hrefs
    by_cases hx : x = h
    · subst hx
      rw [Function.update_self, single_self] at hrefs
      omega
    · rw [Function.update_of_ne hx, single_of_ne hx] at hrefs
      omega
  · rw [hp]
    rfl
  · by_cases hxh : x = h
    · subst hxh
      exact hid
    · rw [Function.update_of_ne hxh] at hx
      exact hs.owned x hx
  · cases hx
  · cases hb
  · cases hd
  · cases hb

/-- A free gives back a reference that user space owned. -/
theorem Sound.frees (hs : Sound s) (hp : s.pc t = .freeValid c h) (howned : s.owned h ≠ 0) :
    ∃ store, handlePut s.store h = some store ∧
      Moved s t store (.putLast c h) (Function.update s.owned h (s.owned h - 1)) := by
  have hheld : (s.pc t).held = some h := by rw [hp]; rfl
  have hH : ∀ x, handleRefs (Function.update s.owned h (s.owned h - 1))
      (Function.update s.pc t (.putLast c h)) x + single h x = handleRefs s.owned s.pc x := by
    intro x
    have hrefs := handleRefs_update s.owned (Function.update s.owned h (s.owned h - 1)) s.pc t
      (.putLast c h) x
    have hlast : (Pc.putLast c h).holds x = single h x := rfl
    rw [Pc.holds_of_held hheld, hlast] at hrefs
    by_cases hx : x = h
    · subst hx
      rw [Function.update_self, single_self] at hrefs
      rw [single_self]
      omega
    · rw [Function.update_of_ne hx, single_of_ne hx] at hrefs
      rw [single_of_ne hx]
      omega
  obtain ⟨store, hput, hcons, hnames, hlive, -⟩ := hs.consistent.handlePut hH
  refine ⟨store, hput, hs.quiet (hcons.congr (fun _ => rfl) (bufferRefs_keep ?_)) hnames hlive
    (fun x hx => ?_) (fun x hx => ?_) (fun b hb => ?_) (fun d hd => ?_) rfl (fun b hb => ?_) rfl⟩
  · rw [hp]
    rfl
  · by_cases hxh : x = h
    · subst hxh
      exact hs.owned x howned
    · rw [Function.update_of_ne hxh] at hx
      exact hs.owned x hx
  · obtain rfl : h = x := Option.some.inj hx
    rw [hp]
    exact .inl ⟨rfl, rfl, rfl⟩
  · cases hb
  · cases hd
  · cases hb

/-- A share takes a reference on the buffer of a handle it has looked up. -/
theorem Sound.shares (hs : Sound s) (hp : s.pc t = .shareGot c h) :
    ∃ store, bufferGet s.store (s.store.handle h).buffer = some store ∧
      Moved s t store (.shareBuffer c h (s.store.handle h).buffer) s.owned := by
  have hheld : (s.pc t).held = some h := by rw [hp]; rfl
  have hnone : (s.pc t).heldBuffer = none := by rw [hp]; rfl
  have hreach : Reaches s t (s.store.handle h).buffer :=
    .inr (.inr ⟨h, hheld, by rw [hp]; rfl, rfl⟩)
  have hbuffer : (Pc.shareBuffer c h (s.store.handle h).buffer).heldBuffer =
      some (s.store.handle h).buffer := rfl
  obtain ⟨store, hget, hcons, hnames, hhandles, -⟩ :=
    hs.consistent.bufferGet (hs.reaches_live hreach) (bufferRefs_take hnone hbuffer)
  refine ⟨store, hget, hs.quiet (hcons.congr (handleRefs_keep ?_) fun _ => rfl) hnames
    (by rw [hhandles]) hs.owned (fun x hx => ?_) (fun b hb => ?_) (fun d hd => ?_) rfl
    (fun b hb => ?_) rfl⟩
  · rw [hheld]
    rfl
  · refine .inl ⟨hheld.trans hx, ?_⟩
    rw [hp]
    exact ⟨rfl, rfl⟩
  · obtain rfl := Option.some.inj hb
    exact hreach
  · cases hd
  · cases hb

/-- The dma-buf takes the reference of the thread over. -/
theorem Sound.exports (hs : Sound s) (hp : s.pc t = .shareBuffer c h b) {d : DmaBufId}
    (hd : d ∉ s.store.dmaBufs) :
    Moved s t (dmaBufExported s.store b d) (.shareExported c h d) s.owned := by
  have hheld : (s.pc t).held = some h := by rw [hp]; rfl
  have hbuffer : (s.pc t).heldBuffer = some b := by rw [hp]; rfl
  have hplaced := hs.placed t h hheld
  rw [hp] at hplaced
  have hcons := hs.consistent.dmaBufExported hd
    (bufferRefs_drop hbuffer (rfl : (Pc.shareExported c h d).heldBuffer = none))
  constructor
  · exact hcons.congr (handleRefs_keep hheld.symm) fun _ => rfl
  · exact fun _ _ => ⟨rfl, rfl⟩
  · exact fun _ _ => .inl rfl
  · exact fun _ hx => .inl hx
  · exact hs.owned
  · intro x hx
    obtain rfl : h = x := Option.some.inj hx
    exact hplaced
  · intro x hx
    exact .inl ⟨hheld.trans hx, .inr rfl⟩
  · intro x hx
    cases hx
  · intro e he
    simp only [dmaBufExported, Finset.mem_insert] at he ⊢
    by_cases hed : e = d
    · subst hed
      rw [Function.update_self]
      exact .inr ⟨hd, .inl hbuffer⟩
    · rw [Function.update_of_ne hed]
      exact .inl ⟨he.resolve_left hed, rfl⟩
  · intro u _ e he
    exact Finset.mem_insert_of_mem (hs.dma u e he)
  · intro e he
    obtain rfl : d = e := Option.some.inj he
    exact ⟨Finset.mem_insert_self .., .inr (.inl hd)⟩
  · intro e he
    obtain rfl : d = e := Option.some.inj he
    exact hd
  · intro x hx
    cases hx
  · rfl

/-- A dma-buf without a file descriptor goes at once. -/
theorem Sound.unexports (hs : Sound s) {d : DmaBufId} (hp : s.pc t = .shareExported c h d) :
    ∃ store, dmaBufRelease s.store d = some store ∧ Moved s t store (.putLast c h) s.owned := by
  have hheld : (s.pc t).held = some h := by rw [hp]; rfl
  have hexporting : (s.pc t).exporting = some d := by rw [hp]; rfl
  have hplaced := hs.placed t h hheld
  rw [hp] at hplaced
  obtain ⟨store, hrelease, hcons, hhandle, hdmaBufs, hdmaBuffer, hhandles, -⟩ :=
    hs.consistent.dmaBufRelease (hs.dma t d (Pc.heldDma_of_exporting hexporting))
  refine ⟨store, hrelease, ?_⟩
  constructor
  · refine hcons.congr (handleRefs_keep hheld.symm) (bufferRefs_keep ?_)
    rw [hp]
    rfl
  · intro x _
    rw [hhandle]
    exact ⟨rfl, rfl⟩
  · intro x _
    rw [hhandle]
    exact .inl rfl
  · intro x hx
    rw [hhandles] at hx
    exact .inl hx
  · rw [hhandle]
    exact hs.owned
  · intro x hx
    obtain rfl : h = x := Option.some.inj hx
    rw [hhandle]
    exact hplaced
  · intro x hx
    exact .inl ⟨hheld.trans hx, .inr rfl⟩
  · intro x hx
    cases hx
  · intro e he
    rw [hdmaBufs] at he
    rw [hdmaBuffer]
    exact .inl ⟨Finset.mem_of_mem_erase he, rfl⟩
  · intro u hu e he
    rw [hdmaBufs, Finset.mem_erase]
    refine ⟨?_, hs.dma u e he⟩
    rintro rfl
    exact hu (hs.exporting t u e hexporting he)
  · intro e he
    cases he
  · intro e he
    cases he
  · intro x hx
    cases hx
  · rfl

/-- A new buffer is its maker's alone. -/
theorem Sound.allocates (hs : Sound s) (hp : s.pc t = .idle) (hb : b ∉ s.store.buffers.live)
    (c : ClientId) :
    Moved s t (bufferCreated s.store b) (.allocBuffer c b) s.owned := by
  have hnone : (s.pc t).held = none := by rw [hp]; rfl
  have hbuffer : (s.pc t).heldBuffer = none := by rw [hp]; rfl
  have hcons := hs.consistent.bufferCreated hb
    (bufferRefs_take hbuffer (rfl : (Pc.allocBuffer c b).heldBuffer = some b))
  constructor
  · exact hcons.congr (handleRefs_keep hnone.symm) fun _ => rfl
  · exact fun _ _ => ⟨rfl, rfl⟩
  · exact fun _ _ => .inl rfl
  · exact fun _ hx => .inl hx
  · exact hs.owned
  · intro x hx
    cases hx
  · intro x hx
    cases hx
  · intro x hx
    obtain rfl : b = x := Option.some.inj hx
    exact .inr hb
  · exact fun _ he => .inl ⟨he, rfl⟩
  · exact fun u _ e he => hs.dma u e he
  · intro e he
    cases he
  · intro e he
    cases he
  · intro x hx
    obtain rfl : b = x := Option.some.inj hx
    constructor
    · intro d hd hdb
      have hlive : s.store.dmaBuffer d ∈ s.store.buffers.live := hs.consistent.dmaBuffer_live hd
      exact hb (hdb ▸ hlive)
    · intro y hy
      have hlive : (s.store.handle y).buffer ∈ s.store.buffers.live := hs.consistent.buffer_live hy
      simp only [Function.update_self]
      exact ⟨fun hyb => absurd (hyb ▸ hlive) hb, fun hheld => by cases hheld⟩
    · intro u hu
      by_contra hne
      simp only [Function.update_of_ne hne] at hu
      exact hb (hs.heldBuffer_live hu)
  · rfl

end Moved

end LineageA1000.Ion
