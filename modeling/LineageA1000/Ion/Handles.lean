import LineageA1000.Lib.RefCount
import Mathlib.Data.Finset.Card
import Mathlib.Data.Finset.Filter
import Mathlib.Data.List.Nodup

/-!
# Handles and buffers

A client names a buffer by a handle. Handles and buffers are counted: a handle has a reference on
its buffer, a dma-buf made from a buffer has one, and a call into the driver takes references on
what it works with. Here are the operations on the counted objects, each at the lock it is made
under, with what they use of the client's numbers (`idr`) and of its tree of handles. An operation
that would use memory already freed, or that runs into a `BUG_ON`, gives `none`.

Counts are numbers here and do not wrap.
-/

namespace LineageA1000.Ion

open RefCount

abbrev ClientId := Nat
abbrev HandleId := Nat
abbrev BufferId := Nat
abbrev DmaBufId := Nat

/-- `struct ion_handle` but its count. The number is zero until the handle is added. -/
structure Handle where
  client : ClientId
  buffer : BufferId
  id : Nat
  deriving DecidableEq, Repr

structure Store where
  handles : RefCount.Table HandleId
  handle : HandleId → Handle
  buffers : RefCount.Table BufferId
  handleCount : BufferId → Int
  idr : ClientId → Nat → Option HandleId
  tree : ClientId → List HandleId
  dmaBufs : Finset DmaBufId
  dmaBuffer : DmaBufId → BufferId

/-- A device nobody uses. -/
def probed : Store where
  handles := ⟨∅, fun _ => 0⟩
  handle _ := ⟨0, 0, 0⟩
  buffers := ⟨∅, fun _ => 0⟩
  handleCount _ := 0
  idr _ _ := none
  tree _ := []
  dmaBufs := ∅
  dmaBuffer _ := 0

/-! ### Operations -/

/-- The end of `ion_buffer_create`. -/
def bufferCreated (s : Store) (b : BufferId) : Store :=
  { s with buffers := s.buffers.init b, handleCount := Function.update s.handleCount b 0 }

def bufferGet (s : Store) (b : BufferId) : Option Store :=
  if b ∈ s.buffers.live then some { s with buffers := s.buffers.get b } else none

/-- `ion_buffer_put`; the last one frees the buffer. -/
def bufferPut (s : Store) (b : BufferId) : Option Store :=
  if b ∈ s.buffers.live then some { s with buffers := s.buffers.put b } else none

def bufferAddToHandle (s : Store) (b : BufferId) : Option Store :=
  if b ∈ s.buffers.live then
    some { s with handleCount := Function.update s.handleCount b (s.handleCount b + 1) }
  else none

/-- `ion_buffer_remove_from_handle`, with its `BUG_ON`. -/
def bufferRemoveFromHandle (s : Store) (b : BufferId) : Option Store :=
  if b ∉ s.buffers.live ∨ s.handleCount b - 1 < 0 then none
  else some { s with handleCount := Function.update s.handleCount b (s.handleCount b - 1) }

/-- `ion_handle_create` at the fresh address `h`. -/
def handleCreate (s : Store) (c : ClientId) (b : BufferId) (h : HandleId) : Option Store := do
  let s ← bufferGet s b
  let s ← bufferAddToHandle s b
  some { s with
    handles := s.handles.init h
    handle := Function.update s.handle h ⟨c, b, 0⟩ }

/-- The handle leaves its client: `idr_remove` and `rb_erase`. -/
def unlink (s : Store) (h : HandleId) : Store :=
  let c := (s.handle h).client
  { s with
    idr := Function.update s.idr c (Function.update (s.idr c) (s.handle h).id none)
    tree := Function.update s.tree c ((s.tree c).erase h) }

def handleDestroy (s : Store) (h : HandleId) : Option Store := do
  let s ← bufferRemoveFromHandle (unlink s h) (s.handle h).buffer
  let s ← bufferPut s (s.handle h).buffer
  some { s with handles := s.handles.drop h }

def handleGet (s : Store) (h : HandleId) : Option Store :=
  if h ∈ s.handles.live then some { s with handles := s.handles.get h } else none

/-- `ion_handle_put`. -/
def handlePut (s : Store) (h : HandleId) : Option Store :=
  if h ∉ s.handles.live then none
  else if s.handles.ref h = 1 then handleDestroy s h
  else some { s with handles := s.handles.put h }

/-- `ion_handle_validate`. -/
def handleValidate (s : Store) (c : ClientId) (h : HandleId) : Option Bool :=
  if h ∈ s.handles.live then some (decide (s.idr c (s.handle h).id = some h)) else none

/-- The handles a walk over the tree may look at. -/
def walkTree (s : Store) (c : ClientId) : Option (List HandleId) :=
  if ∀ e ∈ s.tree c, e ∈ s.handles.live then some (s.tree c) else none

/-- `ion_handle_lookup`. -/
def handleLookup (s : Store) (c : ClientId) (b : BufferId) : Option (Option HandleId) :=
  (walkTree s c).map fun tree => tree.find? fun e => (s.handle e).buffer = b

/-- A handle of the same buffer stands in the tree. The walk of `ion_handle_add` then warns at that
handle for ever, for it does not go on from there. -/
def Standing (s : Store) (c : ClientId) (b : BufferId) : Prop :=
  ∃ e ∈ s.tree c, (s.handle e).buffer = b

instance decidableStanding (s : Store) (c : ClientId) (b : BufferId) : Decidable (Standing s c b) :=
  inferInstanceAs (Decidable (∃ e ∈ s.tree c, (s.handle e).buffer = b))

/-- `ion_handle_add` after `idr_alloc` has found the number `id`, with whether it ends. -/
def handleAdd (s : Store) (c : ClientId) (h : HandleId) (id : Nat) : Option (Store × Bool) := do
  let tree ← walkTree s c
  let numbered : Store := { s with
    idr := Function.update s.idr c (Function.update (s.idr c) id (some h))
    handle := Function.update s.handle h { s.handle h with id } }
  if Standing s c (s.handle h).buffer then some (numbered, false)
  else some ({ numbered with tree := Function.update s.tree c (h :: tree) }, true)

/-- `dma_buf_export`: the reference on the buffer goes to the dma-buf. -/
def dmaBufExported (s : Store) (b : BufferId) (d : DmaBufId) : Store :=
  { s with dmaBufs := insert d s.dmaBufs, dmaBuffer := Function.update s.dmaBuffer d b }

/-- `ion_dma_buf_release`, when the last reference on the dma-buf is gone. -/
def dmaBufRelease (s : Store) (d : DmaBufId) : Option Store :=
  (bufferPut s (s.dmaBuffer d)).map fun s => { s with dmaBufs := s.dmaBufs.erase d }

/-- The loop of `ion_client_destroy` over the tree. -/
def destroyAll : List HandleId → Store → Option Store
  | [], s => some s
  | h :: hs, s => (handleDestroy s h).bind (destroyAll hs)

/-- `ion_client_destroy`: each handle goes, whatever its count, and then the numbers. -/
def clientDestroy (s : Store) (c : ClientId) : Option Store :=
  (destroyAll (s.tree c) s).map fun s => { s with idr := Function.update s.idr c fun _ => none }

/-! ### Who refers to a buffer -/

def handlesOf (s : Store) (b : BufferId) : Nat :=
  (s.handles.live.filter fun h => (s.handle h).buffer = b).card

def dmaBufsOf (s : Store) (b : BufferId) : Nat :=
  (s.dmaBufs.filter fun d => s.dmaBuffer d = b).card

/-- The counts are those of the references: `uH` and `uB` are the references on handles and on
buffers from outside the store. A handle with a number is in its client's `idr` and tree and the
only one there for its buffer. -/
structure Consistent (s : Store) (uH : HandleId → Nat) (uB : BufferId → Nat) : Prop where
  handles : Counted s.handles uH
  buffers : Counted s.buffers fun b => handlesOf s b + dmaBufsOf s b + uB b
  handleCount : ∀ b, s.handleCount b = handlesOf s b
  idr : ∀ c id h, s.idr c id = some h ↔
    h ∈ s.handles.live ∧ (s.handle h).client = c ∧ (s.handle h).id = id ∧ id ≠ 0
  tree : ∀ c h, h ∈ s.tree c ↔
    h ∈ s.handles.live ∧ (s.handle h).client = c ∧ (s.handle h).id ≠ 0
  nodup : ∀ c, (s.tree c).Nodup
  sole : ∀ c, ∀ h ∈ s.tree c, ∀ e ∈ s.tree c, (s.handle h).buffer = (s.handle e).buffer → h = e

/-- What handles and dma-bufs stand for is as before. -/
structure SameNames (s s' : Store) : Prop where
  handle : s'.handle = s.handle
  dmaBufs : s'.dmaBufs = s.dmaBufs
  dmaBuffer : s'.dmaBuffer = s.dmaBuffer

theorem SameNames.refl (s : Store) : SameNames s s := ⟨rfl, rfl, rfl⟩

theorem SameNames.trans {s t u : Store} (h : SameNames s t) (h' : SameNames t u) : SameNames s u :=
  ⟨h'.handle.trans h.handle, h'.dmaBufs.trans h.dmaBufs, h'.dmaBuffer.trans h.dmaBuffer⟩

variable {s : Store} {uH uH' : HandleId → Nat} {uB uB' : BufferId → Nat} {b : BufferId}
  {h : HandleId} {c : ClientId}

theorem handlesOf_probed (b : BufferId) : handlesOf probed b = 0 := rfl

theorem dmaBufsOf_probed (b : BufferId) : dmaBufsOf probed b = 0 := rfl

theorem consistent_probed : Consistent probed (fun _ => 0) fun _ => 0 where
  handles _ := by simp [probed]
  buffers _ := by
    simp only [handlesOf_probed, dmaBufsOf_probed]
    simp [probed]
  handleCount _ := by rw [handlesOf_probed]; rfl
  idr _ _ _ := by simp [probed]
  tree _ _ := by simp [probed]
  nodup _ := List.nodup_nil
  sole _ _ hh := by simp [probed] at hh

theorem handlesOf_pos (hlive : h ∈ s.handles.live) : handlesOf s (s.handle h).buffer ≠ 0 :=
  Finset.card_ne_zero.2 ⟨h, Finset.mem_filter.2 ⟨hlive, rfl⟩⟩

theorem dmaBufsOf_pos {d : DmaBufId} (hd : d ∈ s.dmaBufs) : dmaBufsOf s (s.dmaBuffer d) ≠ 0 :=
  Finset.card_ne_zero.2 ⟨d, Finset.mem_filter.2 ⟨hd, rfl⟩⟩

theorem Consistent.buffer_live (hs : Consistent s uH uB) (hlive : h ∈ s.handles.live) :
    (s.handle h).buffer ∈ s.buffers.live := by
  have hpos := handlesOf_pos hlive
  exact hs.buffers.mem (by omega)

theorem Consistent.dmaBuffer_live (hs : Consistent s uH uB) {d : DmaBufId} (hd : d ∈ s.dmaBufs) :
    s.dmaBuffer d ∈ s.buffers.live := by
  have hpos := dmaBufsOf_pos hd
  exact hs.buffers.mem (by omega)

theorem Consistent.walkTree (hs : Consistent s uH uB) (c : ClientId) :
    walkTree s c = some (s.tree c) :=
  if_pos fun _ he => ((hs.tree c _).1 he).1

/-- References from outside may be told in another way. -/
theorem Consistent.congr (hs : Consistent s uH uB) (hH : ∀ x, uH' x = uH x)
    (hB : ∀ x, uB' x = uB x) : Consistent s uH' uB' :=
  { hs with
    handles := hs.handles.congr hH
    buffers := hs.buffers.congr fun x => by rw [hB x] }

/-! ### What each operation keeps -/

section Buffers

theorem Consistent.bufferCreated (hs : Consistent s uH uB) (hb : b ∉ s.buffers.live)
    (hB : ∀ x, uB' x = uB x + single b x) : Consistent (bufferCreated s b) uH uB' :=
  { hs with
    buffers := hs.buffers.init hb fun x => by
      have hx := hB x
      change handlesOf s x + dmaBufsOf s x + uB' x = handlesOf s x + dmaBufsOf s x + uB x + _
      omega
    handleCount := by
      intro x
      by_cases hx : x = b
      · subst hx
        have hnone : ¬ handlesOf s x + dmaBufsOf s x + uB x ≠ 0 :=
          fun hne => hb (hs.buffers.mem hne)
        have hzero : handlesOf s x = 0 := by omega
        exact (Function.update_self ..).trans (by exact_mod_cast hzero.symm)
      · exact (Function.update_of_ne hx ..).trans (hs.handleCount x) }

theorem Consistent.bufferGet (hs : Consistent s uH uB) (hb : b ∈ s.buffers.live)
    (hB : ∀ x, uB' x = uB x + single b x) :
    ∃ s', bufferGet s b = some s' ∧ Consistent s' uH uB' ∧ SameNames s s' ∧
      s'.handles = s.handles ∧ s'.tree = s.tree := by
  refine ⟨_, if_pos hb, ?_, ⟨rfl, rfl, rfl⟩, rfl, rfl⟩
  exact { hs with
    buffers := hs.buffers.get hb fun x => by
      have hx := hB x
      change handlesOf s x + dmaBufsOf s x + uB' x = handlesOf s x + dmaBufsOf s x + uB x + _
      omega }

theorem Consistent.bufferPut (hs : Consistent s uH uB) (hB : ∀ x, uB' x + single b x = uB x) :
    ∃ s', bufferPut s b = some s' ∧ Consistent s' uH uB' ∧ SameNames s s' ∧
      s'.handles = s.handles ∧ s'.tree = s.tree := by
  have hb := hB b
  rw [single_self] at hb
  refine ⟨_, if_pos (hs.buffers.mem (by omega)), ?_, ⟨rfl, rfl, rfl⟩, rfl, rfl⟩
  exact { hs with
    buffers := hs.buffers.put fun x => by
      have hx := hB x
      change handlesOf s x + dmaBufsOf s x + uB' x + _ = handlesOf s x + dmaBufsOf s x + uB x
      omega }

theorem dmaBufsOf_exported {d : DmaBufId} (hd : d ∉ s.dmaBufs) (x : BufferId) :
    dmaBufsOf (dmaBufExported s b d) x = dmaBufsOf s x + single b x := by
  have hrest : (s.dmaBufs.filter fun e => Function.update s.dmaBuffer d b e = x) =
      s.dmaBufs.filter fun e => s.dmaBuffer e = x := by
    apply Finset.filter_congr
    intro e he
    rw [Function.update_of_ne (ne_of_mem_of_not_mem he hd)]
  change ((insert d s.dmaBufs).filter fun e => Function.update s.dmaBuffer d b e = x).card = _
  rw [Finset.filter_insert, Function.update_self, hrest, dmaBufsOf, single]
  by_cases hx : b = x
  · rw [if_pos hx, if_pos hx.symm, Finset.card_insert_of_notMem]
    exact fun hmem => hd (Finset.mem_filter.1 hmem).1
  · rw [if_neg hx, if_neg (Ne.symm hx), Nat.add_zero]

theorem Consistent.dmaBufExported (hs : Consistent s uH uB) {d : DmaBufId} (hd : d ∉ s.dmaBufs)
    (hB : ∀ x, uB' x + single b x = uB x) : Consistent (dmaBufExported s b d) uH uB' :=
  { hs with
    buffers := hs.buffers.congr fun x => by
      have hx := hB x
      have hsame : handlesOf (Ion.dmaBufExported s b d) x = handlesOf s x := rfl
      rw [dmaBufsOf_exported hd, hsame]
      omega }

theorem dmaBufsOf_erase {d : DmaBufId} (hd : d ∈ s.dmaBufs) (x : BufferId) :
    ((s.dmaBufs.erase d).filter fun e => s.dmaBuffer e = x).card + single (s.dmaBuffer d) x =
      dmaBufsOf s x := by
  rw [dmaBufsOf, Finset.filter_erase, single]
  by_cases hx : x = s.dmaBuffer d
  · rw [if_pos hx, Finset.card_erase_add_one (Finset.mem_filter.2 ⟨hd, hx.symm⟩)]
  · rw [if_neg hx, Finset.erase_eq_of_notMem, Nat.add_zero]
    exact fun hmem => hx (Finset.mem_filter.1 hmem).2.symm

theorem Consistent.dmaBufRelease (hs : Consistent s uH uB) {d : DmaBufId} (hd : d ∈ s.dmaBufs) :
    ∃ s', dmaBufRelease s d = some s' ∧ Consistent s' uH uB ∧ s'.handle = s.handle ∧
      s'.dmaBufs = s.dmaBufs.erase d ∧ s'.dmaBuffer = s.dmaBuffer ∧ s'.handles = s.handles ∧
      s'.tree = s.tree := by
  have hb : s.dmaBuffer d ∈ s.buffers.live := hs.dmaBuffer_live hd
  have heq : Ion.dmaBufRelease s d = some { s with
      buffers := s.buffers.put (s.dmaBuffer d)
      dmaBufs := s.dmaBufs.erase d } := by
    rw [Ion.dmaBufRelease, Ion.bufferPut, if_pos hb]
    rfl
  refine ⟨_, heq, ?_, rfl, rfl, rfl, rfl, rfl⟩
  exact { hs with
    buffers := hs.buffers.put fun x => by
      have hx := dmaBufsOf_erase hd x
      simp only [handlesOf, dmaBufsOf] at hx ⊢
      omega }

end Buffers

section HandleOperations

theorem Consistent.handleGet (hs : Consistent s uH uB) (hlive : h ∈ s.handles.live)
    (hH : ∀ x, uH' x = uH x + single h x) :
    ∃ s', handleGet s h = some s' ∧ Consistent s' uH' uB ∧ SameNames s s' ∧
      s'.handles.live = s.handles.live ∧ s'.tree = s.tree := by
  refine ⟨_, if_pos hlive, ?_, ⟨rfl, rfl, rfl⟩, rfl, rfl⟩
  exact { hs with handles := hs.handles.get hlive hH }

theorem handlesOf_created {r : Handle} (hnew : h ∉ s.handles.live) (x : BufferId) :
    ((insert h s.handles.live).filter fun e => (Function.update s.handle h r e).buffer = x).card =
      handlesOf s x + single r.buffer x := by
  have hrest : (s.handles.live.filter fun e => (Function.update s.handle h r e).buffer = x) =
      s.handles.live.filter fun e => (s.handle e).buffer = x := by
    apply Finset.filter_congr
    intro e he
    rw [Function.update_of_ne (ne_of_mem_of_not_mem he hnew)]
  rw [Finset.filter_insert, Function.update_self, hrest, handlesOf, single]
  by_cases hx : r.buffer = x
  · rw [if_pos hx, if_pos hx.symm, Finset.card_insert_of_notMem]
    exact fun hmem => hnew (Finset.mem_filter.1 hmem).1
  · rw [if_neg hx, if_neg (Ne.symm hx), Nat.add_zero]

/-- A handle that was just made is in no tree and has no number yet. -/
theorem Consistent.handleCreate (hs : Consistent s uH uB) (hb : b ∈ s.buffers.live)
    (hnew : h ∉ s.handles.live) (c : ClientId) (hH : ∀ x, uH' x = uH x + single h x) :
    ∃ s', handleCreate s c b h = some s' ∧ Consistent s' uH' uB ∧
      s'.handles.live = insert h s.handles.live ∧
      s'.handle = Function.update s.handle h ⟨c, b, 0⟩ ∧ s'.dmaBufs = s.dmaBufs ∧
      s'.dmaBuffer = s.dmaBuffer ∧ s'.tree = s.tree := by
  have hsame : ∀ e ∈ s.handles.live, Function.update s.handle h ⟨c, b, 0⟩ e = s.handle e :=
    fun e he => Function.update_of_ne (ne_of_mem_of_not_mem he hnew) ..
  have hzero : (Function.update s.handle h ⟨c, b, 0⟩ h).id = 0 := by rw [Function.update_self]
  have hcount := handlesOf_created (r := ⟨c, b, 0⟩) hnew
  have heq : Ion.handleCreate s c b h = some { s with
      handles := s.handles.init h
      handle := Function.update s.handle h ⟨c, b, 0⟩
      buffers := s.buffers.get b
      handleCount := Function.update s.handleCount b (s.handleCount b + 1) } := by
    have hget : Ion.bufferGet s b = some { s with buffers := s.buffers.get b } := if_pos hb
    have hadd : bufferAddToHandle { s with buffers := s.buffers.get b } b = some { s with
        buffers := s.buffers.get b
        handleCount := Function.update s.handleCount b (s.handleCount b + 1) } := if_pos hb
    rw [Ion.handleCreate, hget, Option.bind_eq_bind, Option.bind_some, hadd]
    rfl
  refine ⟨_, heq, ?_, rfl, rfl, rfl, rfl, rfl⟩
  constructor
  · exact hs.handles.init hnew hH
  · refine hs.buffers.get hb fun x => ?_
    have hx := hcount x
    simp only [handlesOf, dmaBufsOf, RefCount.Table.live_init] at hx ⊢
    omega
  · intro x
    have hx := hcount x
    have hold := hs.handleCount x
    simp only [handlesOf, RefCount.Table.live_init] at hx hold ⊢
    rw [hx]
    by_cases hxb : x = b
    · subst hxb
      rw [Function.update_self, single_self, hold]
      rfl
    · rw [Function.update_of_ne hxb, single_of_ne hxb, hold]
      rfl
  · intro c' id e
    have hold := hs.idr c' id e
    simp only [RefCount.Table.live_init, Finset.mem_insert] at hold ⊢
    rw [hold]
    by_cases he : e = h
    · subst he
      simp only [hnew, Function.update_self, false_and, true_or, true_and, false_iff]
      rintro ⟨-, rfl, hne⟩
      exact hne rfl
    · rw [Function.update_of_ne he]
      simp only [he, false_or]
  · intro c' e
    have hold := hs.tree c' e
    simp only [RefCount.Table.live_init, Finset.mem_insert] at hold ⊢
    rw [hold]
    by_cases he : e = h
    · subst he
      simp [hnew]
    · rw [Function.update_of_ne he]
      simp only [he, false_or]
  · exact hs.nodup
  · intro c' e he e' he' heq
    have hlive := ((hs.tree c' e).1 he).1
    have hlive' := ((hs.tree c' e').1 he').1
    dsimp only at heq
    rw [hsame e hlive, hsame e' hlive'] at heq
    exact hs.sole c' e he e' he' heq

theorem handlesOf_erase (hlive : h ∈ s.handles.live) (x : BufferId) :
    ((s.handles.live.erase h).filter fun e => (s.handle e).buffer = x).card +
      single (s.handle h).buffer x = handlesOf s x := by
  rw [handlesOf, Finset.filter_erase, single]
  by_cases hx : x = (s.handle h).buffer
  · rw [if_pos hx, Finset.card_erase_add_one (Finset.mem_filter.2 ⟨hlive, hx.symm⟩)]
  · rw [if_neg hx, Finset.erase_eq_of_notMem, Nat.add_zero]
    exact fun hmem => hx (Finset.mem_filter.1 hmem).2.symm

theorem mem_unlink_tree (hs : Consistent s uH uB) {e : HandleId} :
    e ∈ (unlink s h).tree c ↔ e ∈ s.tree c ∧ e ≠ h := by
  simp only [unlink]
  by_cases hc : c = (s.handle h).client
  · subst hc
    rw [Function.update_self, (hs.nodup _).mem_erase_iff, and_comm]
  · rw [Function.update_of_ne hc]
    refine ⟨fun he => ⟨he, ?_⟩, fun he => he.1⟩
    rintro rfl
    exact hc ((hs.tree c e).1 he).2.1.symm

theorem nodup_unlink (hs : Consistent s uH uB) (c : ClientId) : ((unlink s h).tree c).Nodup := by
  simp only [unlink]
  by_cases hc : c = (s.handle h).client
  · subst hc
    rw [Function.update_self]
    exact (hs.nodup _).erase h
  · rw [Function.update_of_ne hc]
    exact hs.nodup c

theorem unlink_idr (hs : Consistent s uH uB) (hlive : h ∈ s.handles.live) {id : Nat}
    {e : HandleId} : (unlink s h).idr c id = some e ↔ s.idr c id = some e ∧ e ≠ h := by
  simp only [unlink]
  by_cases hc : c = (s.handle h).client
  · subst hc
    rw [Function.update_self]
    by_cases hid : id = (s.handle h).id
    · subst hid
      rw [Function.update_self]
      constructor
      · intro hnone
        cases hnone
      rintro ⟨he, hne⟩
      obtain ⟨-, -, -, hid⟩ := (hs.idr _ _ e).1 he
      have hself : s.idr (s.handle h).client (s.handle h).id = some h :=
        (hs.idr _ _ h).2 ⟨hlive, rfl, rfl, hid⟩
      rw [hself] at he
      exact absurd (Option.some.inj he).symm hne
    · rw [Function.update_of_ne hid]
      refine ⟨fun he => ⟨he, ?_⟩, fun he => he.1⟩
      rintro rfl
      exact hid ((hs.idr _ _ e).1 he).2.2.1.symm
  · rw [Function.update_of_ne hc]
    refine ⟨fun he => ⟨he, ?_⟩, fun he => he.1⟩
    rintro rfl
    exact hc ((hs.idr _ _ e).1 he).2.1.symm

/-- A handle goes with the references on it, and takes its own on the buffer along. -/
theorem Consistent.handleDestroy (hs : Consistent s uH uB) (hlive : h ∈ s.handles.live)
    (hzero : uH' h = 0) (hH : ∀ x, x ≠ h → uH' x = uH x) :
    ∃ s', handleDestroy s h = some s' ∧ Consistent s' uH' uB ∧ SameNames s s' ∧
      s'.handles.live = s.handles.live.erase h ∧ ∀ c e, e ∈ s'.tree c ↔ e ∈ s.tree c ∧ e ≠ h := by
  have hb : (s.handle h).buffer ∈ s.buffers.live := hs.buffer_live hlive
  have hpos := handlesOf_pos hlive
  have hcount := hs.handleCount (s.handle h).buffer
  have herase := handlesOf_erase hlive
  have hremove : bufferRemoveFromHandle (unlink s h) (s.handle h).buffer =
      some { unlink s h with
        handleCount := Function.update s.handleCount (s.handle h).buffer
          (s.handleCount (s.handle h).buffer - 1) } := by
    apply if_neg
    rintro (hdead | hneg)
    · exact hdead hb
    · simp only [unlink] at hneg
      omega
  have heq : Ion.handleDestroy s h = some { s with
      idr := (unlink s h).idr
      tree := (unlink s h).tree
      handles := s.handles.drop h
      buffers := s.buffers.put (s.handle h).buffer
      handleCount := Function.update s.handleCount (s.handle h).buffer
        (s.handleCount (s.handle h).buffer - 1) } := by
    rw [Ion.handleDestroy, hremove]
    simp only [Ion.bufferPut, Option.bind_eq_bind, Option.bind_some, unlink, if_pos hb]
  refine ⟨_, heq, ?_, ⟨rfl, rfl, rfl⟩, rfl, fun _ _ => mem_unlink_tree hs⟩
  constructor
  · exact hs.handles.drop hzero hH
  · refine hs.buffers.put fun x => ?_
    have hx := herase x
    simp only [handlesOf, dmaBufsOf, RefCount.Table.live_drop] at hx ⊢
    omega
  · intro x
    have hx := herase x
    have hold := hs.handleCount x
    simp only [handlesOf, RefCount.Table.live_drop] at hx hold ⊢
    by_cases hxb : x = (s.handle h).buffer
    · subst hxb
      rw [single_self] at hx
      rw [Function.update_self, hold]
      omega
    · rw [single_of_ne hxb] at hx
      rw [Function.update_of_ne hxb, hold, ← hx]
      rfl
  · intro c' id e
    refine (unlink_idr hs hlive).trans ?_
    rw [hs.idr, RefCount.Table.live_drop, Finset.mem_erase]
    tauto
  · intro c' e
    refine (mem_unlink_tree hs).trans ?_
    rw [hs.tree, RefCount.Table.live_drop, Finset.mem_erase]
    tauto
  · exact nodup_unlink hs
  · intro c' e he e' he' heq
    exact hs.sole c' e ((mem_unlink_tree hs).1 he).1 e' ((mem_unlink_tree hs).1 he').1 heq

theorem Consistent.handlePut (hs : Consistent s uH uB) (hH : ∀ x, uH' x + single h x = uH x) :
    ∃ s', handlePut s h = some s' ∧ Consistent s' uH' uB ∧ SameNames s s' ∧
      s'.handles.live ⊆ s.handles.live ∧ ∀ c, ∀ e ∈ s'.tree c, e ∈ s.tree c := by
  have hh := hH h
  rw [single_self] at hh
  have hlive : h ∈ s.handles.live := hs.handles.mem (by omega)
  have href : s.handles.ref h = uH h := hs.handles.ref hlive
  have hother : ∀ x, x ≠ h → uH' x = uH x := by
    intro x hx
    have := hH x
    rwa [single_of_ne hx, Nat.add_zero] at this
  rw [Ion.handlePut, if_neg (not_not.2 hlive)]
  by_cases hone : s.handles.ref h = 1
  · rw [if_pos hone]
    obtain ⟨s', heq, hcons, hnames, hless, htree⟩ := hs.handleDestroy hlive (by omega) hother
    exact ⟨s', heq, hcons, hnames, hless ▸ Finset.erase_subset ..,
      fun c e he => ((htree c e).1 he).1⟩
  · rw [if_neg hone]
    have hall : (s.handles.put h).live = s.handles.live := if_neg hone
    refine ⟨_, rfl, ?_, ⟨rfl, rfl, rfl⟩, hall.le, fun _ _ he => he⟩
    constructor
    · exact hs.handles.put hH
    · refine hs.buffers.congr fun x => ?_
      simp only [handlesOf, dmaBufsOf, hall]
    · intro x
      simp only [handlesOf, hall]
      exact hs.handleCount x
    · intro c' id e
      simp only [hall]
      exact hs.idr c' id e
    · intro c' e
      simp only [hall]
      exact hs.tree c' e
    · exact hs.nodup
    · exact hs.sole

/-- A handle without a number gets the one that was found, in a tree without its buffer. -/
theorem Consistent.handleAdd (hs : Consistent s uH uB) (hlive : h ∈ s.handles.live)
    (hclient : (s.handle h).client = c) (hfirst : (s.handle h).id = 0)
    (hnone : ¬ Standing s c (s.handle h).buffer) {id : Nat} (hid : id ≠ 0)
    (hfree : s.idr c id = none) :
    ∃ s', handleAdd s c h id = some (s', true) ∧ Consistent s' uH uB ∧
      s'.handles = s.handles ∧ s'.handle = Function.update s.handle h { s.handle h with id } ∧
      s'.dmaBufs = s.dmaBufs ∧ s'.dmaBuffer = s.dmaBuffer ∧
      s'.tree = Function.update s.tree c (h :: s.tree c) := by
  have hout : ∀ c', h ∉ s.tree c' := fun c' hmem => ((hs.tree c' h).1 hmem).2.2 hfirst
  have hbuffer : ∀ e, (Function.update s.handle h { s.handle h with id } e).buffer =
      (s.handle e).buffer := by
    intro e
    by_cases he : e = h
    · subst he
      rw [Function.update_self]
    · rw [Function.update_of_ne he]
  have hadd : Ion.handleAdd s c h id = some ({ s with
      idr := Function.update s.idr c (Function.update (s.idr c) id (some h))
      handle := Function.update s.handle h { s.handle h with id }
      tree := Function.update s.tree c (h :: s.tree c) }, true) := by
    simp only [Ion.handleAdd, hs.walkTree, Option.bind_eq_bind, Option.bind_some, if_neg hnone]
  refine ⟨_, hadd, ?_, rfl, rfl, rfl, rfl, rfl⟩
  constructor
  · exact hs.handles
  · refine hs.buffers.congr fun x => ?_
    simp only [handlesOf, dmaBufsOf, hbuffer]
  · intro x
    simp only [handlesOf, hbuffer]
    exact hs.handleCount x
  · intro c' id' e
    have hold := hs.idr c' id' e
    dsimp only
    by_cases he : e = h
    · subst he
      rw [Function.update_self]
      by_cases hc : c' = c
      · subst hc
        rw [Function.update_self]
        by_cases hid' : id' = id
        · subst hid'
          simp [hlive, hclient, hid]
        · rw [Function.update_of_ne hid', hold]
          simp [hfirst, Ne.symm hid', eq_comm]
      · rw [Function.update_of_ne hc, hold]
        simp [hclient, Ne.symm hc]
    · rw [Function.update_of_ne he]
      by_cases hc : c' = c
      · subst hc
        rw [Function.update_self]
        by_cases hid' : id' = id
        · subst hid'
          rw [Function.update_self, ← hold, hfree]
          simp [Ne.symm he]
        · rw [Function.update_of_ne hid', hold]
      · rw [Function.update_of_ne hc, hold]
  · intro c' e
    have hold := hs.tree c' e
    dsimp only
    by_cases hc : c' = c
    · subst hc
      rw [Function.update_self, List.mem_cons]
      by_cases he : e = h
      · subst he
        simp [hlive, hclient, hid]
      · rw [Function.update_of_ne he, hold]
        simp only [he, false_or]
    · rw [Function.update_of_ne hc, hold]
      by_cases he : e = h
      · subst he
        rw [Function.update_self]
        simp [hclient, Ne.symm hc]
      · rw [Function.update_of_ne he]
  · intro c'
    by_cases hc : c' = c
    · subst hc
      dsimp only
      rw [Function.update_self]
      exact List.nodup_cons.2 ⟨hout c', hs.nodup c'⟩
    · dsimp only
      rw [Function.update_of_ne hc]
      exact hs.nodup c'
  · intro c' e he e' he' heq
    dsimp only at he he' heq
    rw [hbuffer, hbuffer] at heq
    by_cases hc : c' = c
    · subst hc
      rw [Function.update_self, List.mem_cons] at he he'
      rcases he with rfl | he <;> rcases he' with rfl | he'
      · rfl
      · exact absurd ⟨e', he', heq.symm⟩ hnone
      · exact absurd ⟨e, he, heq⟩ hnone
      · exact hs.sole c' e he e' he' heq
    · rw [Function.update_of_ne hc] at he he'
      exact hs.sole c' e he e' he' heq

theorem Consistent.destroyAll (hs : Consistent s uH uB) {l : List HandleId} (hl : l.Nodup)
    (hlive : ∀ e ∈ l, e ∈ s.handles.live) :
    ∃ s', destroyAll l s = some s' ∧ Consistent s' (fun e => if e ∈ l then 0 else uH e) uB ∧
      SameNames s s' ∧ s'.handles.live ⊆ s.handles.live ∧
      ∀ c e, e ∈ s'.tree c ↔ e ∈ s.tree c ∧ e ∉ l := by
  induction l generalizing s uH with
  | nil =>
      refine ⟨s, rfl, hs.congr (fun x => ?_) fun _ => rfl, .refl s, subset_rfl, fun c e => ?_⟩
      · simp
      · simp
  | cons h l ih =>
      obtain ⟨hout, hl⟩ := List.nodup_cons.1 hl
      obtain ⟨hh, hrest⟩ := List.forall_mem_cons.1 hlive
      have hother : ∀ x, x ≠ h → Function.update uH h 0 x = uH x :=
        fun x hx => Function.update_of_ne hx ..
      obtain ⟨t, ht, hcons, hnames, hless, htree⟩ :=
        hs.handleDestroy hh (Function.update_self h 0 uH) hother
      have hstill : ∀ e ∈ l, e ∈ t.handles.live := by
        intro e he
        rw [hless, Finset.mem_erase]
        exact ⟨ne_of_mem_of_not_mem he hout, hrest e he⟩
      obtain ⟨s', hs', hcons', hnames', hless', htree'⟩ := ih hcons hl hstill
      refine ⟨s', by rw [Ion.destroyAll, ht, Option.bind_some, hs'], hcons'.congr (fun x => ?_)
        fun _ => rfl, hnames.trans hnames', hless'.trans (hless ▸ Finset.erase_subset ..), ?_⟩
      · by_cases hx : x = h
        · subst hx
          simp
        · simp [hx]
      · intro c e
        rw [htree', htree, List.mem_cons, not_or, and_assoc]

/-- The handles of a client go with every reference on them. -/
theorem Consistent.clientDestroy (hs : Consistent s uH uB) (c : ClientId) :
    ∃ s', clientDestroy s c = some s' ∧
      Consistent s' (fun e => if e ∈ s.tree c then 0 else uH e) uB ∧ SameNames s s' ∧
      s'.handles.live ⊆ s.handles.live ∧ ∀ c' e, e ∈ s'.tree c' ↔ e ∈ s.tree c' ∧ e ∉ s.tree c := by
  obtain ⟨t, ht, hcons, hnames, hless, htree⟩ :=
    hs.destroyAll (hs.nodup c) fun e he => ((hs.tree c e).1 he).1
  have hnone : t.idr c = fun _ => none := by
    funext id
    by_contra hsome
    obtain ⟨e, he⟩ := Option.ne_none_iff_exists'.1 hsome
    obtain ⟨hlive, hclient, hid, hne⟩ := (hcons.idr c id e).1 he
    have hmem : e ∈ t.tree c := (hcons.tree c e).2 ⟨hlive, hclient, hid.symm ▸ hne⟩
    exact ((htree c e).1 hmem).2 ((htree c e).1 hmem).1
  have hidr : Function.update t.idr c (fun _ => none) = t.idr := by
    rw [← hnone, Function.update_eq_self]
  have hdestroy : Ion.clientDestroy s c = some t := by
    rw [Ion.clientDestroy, ht, Option.map_some, hidr]
  exact ⟨t, hdestroy, hcons, hnames, hless, htree⟩

end HandleOperations

end LineageA1000.Ion
