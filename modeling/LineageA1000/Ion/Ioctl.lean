import LineageA1000.Ion.Handles
import LineageA1000.Lib.Run

/-!
# Calls into the driver

Threads call into the driver at the same time. A call takes several steps: each locks a client or
makes one atomic operation, and between two of them other threads go on. `Pc` says where a thread
stands and which references it holds there.

A ledger, which the driver does not keep, says how many references on a handle user space owns: one
more each time a call gives the handle's number out, one fewer for each call of `ION_IOC_FREE`.
-/

namespace LineageA1000.Ion

open RefCount

/-- The point before a step of a call; `d` is the dma-buf of an import. -/
inductive Pc where
  | idle
  | allocBuffer (c : ClientId) (b : BufferId)
  | allocHandle (c : ClientId) (b : BufferId) (h : HandleId)
  | add (c : ClientId) (h : HandleId) (d : Option DmaBufId)
  | undo (c : ClientId) (h : HandleId) (d : Option DmaBufId)
  /-- In the walk of `ion_handle_add` for good. -/
  | hung (c : ClientId) (h : HandleId) (d : Option DmaBufId)
  | importDma (c : ClientId) (d : DmaBufId)
  | importMissed (c : ClientId) (d : DmaBufId)
  | importEnd (c : ClientId) (d : DmaBufId) (h : Option HandleId)
  | copyOut (c : ClientId) (h : HandleId) (cleanup : Bool)
  | cleanup (c : ClientId) (h : HandleId)
  | freeGot (c : ClientId) (h : HandleId)
  | freeValid (c : ClientId) (h : HandleId)
  | shareGot (c : ClientId) (h : HandleId)
  | shareBuffer (c : ClientId) (h : HandleId) (b : BufferId)
  | shareExported (c : ClientId) (h : HandleId) (d : DmaBufId)
  | putLast (c : ClientId) (h : HandleId)
  deriving DecidableEq, Repr

namespace Pc

/-- The client the thread is in. -/
def client : Pc → Option ClientId
  | idle => none
  | allocBuffer c _ | allocHandle c _ _ | add c _ _ | undo c _ _ | hung c _ _ | importDma c _
  | importMissed c _ | importEnd c _ _ | copyOut c _ _ | cleanup c _ | freeGot c _ | freeValid c _
  | shareGot c _ | shareBuffer c _ _ | shareExported c _ _ | putLast c _ => some c

/-- The handle the thread holds a reference on. -/
def held : Pc → Option HandleId
  | allocHandle _ _ h | add _ h _ | undo _ h _ | hung _ h _ | copyOut _ h _ | cleanup _ h
  | freeGot _ h | freeValid _ h | shareGot _ h | shareBuffer _ h _ | shareExported _ h _
  | putLast _ h => some h
  | importEnd _ _ h => h
  | _ => none

/-- The buffer the thread holds a reference on. -/
def heldBuffer : Pc → Option BufferId
  | allocBuffer _ b | allocHandle _ b _ | shareBuffer _ _ b => some b
  | _ => none

/-- The dma-buf the thread holds a reference on. -/
def heldDma : Pc → Option DmaBufId
  | importDma _ d | importMissed _ d | importEnd _ d _ | shareExported _ _ d => some d
  | add _ _ d | undo _ _ d | hung _ _ d => d
  | _ => none

/-- The handle is not added yet. -/
def adding : Pc → Bool
  | allocHandle _ _ _ | add _ _ _ | undo _ _ _ => true
  | _ => false

/-- The dma-buf has no file descriptor yet. -/
def exporting : Pc → Option DmaBufId
  | shareExported _ _ d => some d
  | _ => none

def isHung : Pc → Bool
  | hung _ _ _ => true
  | _ => false

def holds (p : Pc) (x : HandleId) : Nat := p.held.elim 0 fun h => single h x

def holdsBuffer (p : Pc) (x : BufferId) : Nat := p.heldBuffer.elim 0 fun b => single b x

theorem holds_of_held {p : Pc} {h : HandleId} (hp : p.held = some h) (x : HandleId) :
    p.holds x = single h x := by rw [holds, hp, Option.elim_some]

theorem holds_eq_one {p : Pc} {h : HandleId} (hp : p.held = some h) : p.holds h = 1 := by
  rw [holds_of_held hp, single_self]

theorem holds_ne_zero {p : Pc} {h : HandleId} : p.holds h ≠ 0 ↔ p.held = some h := by
  rw [holds]
  cases p.held with
  | none => simp
  | some x => simp [single, eq_comm]

theorem holdsBuffer_of_held {p : Pc} {b : BufferId} (hp : p.heldBuffer = some b) (x : BufferId) :
    p.holdsBuffer x = single b x := by rw [holdsBuffer, hp, Option.elim_some]

theorem holdsBuffer_ne_zero {p : Pc} {b : BufferId} :
    p.holdsBuffer b ≠ 0 ↔ p.heldBuffer = some b := by
  rw [holdsBuffer]
  cases p.heldBuffer with
  | none => simp
  | some x => simp [single, eq_comm]

end Pc

/-- What the kernel answers in a step: an address for a handle, a number for it, a dma-buf, whether
there is a file descriptor for that, and whether the result reaches user space. -/
structure Answer where
  kzalloc : Option HandleId
  idrAlloc : Option Nat
  dmaBuf : Option DmaBufId
  fd : Bool
  copied : Bool
  deriving DecidableEq, Repr

/-- `ion_handle_get_by_id`. -/
def handleGetById (s : Store) (c : ClientId) (id : Nat) : Option (Store × Option HandleId) :=
  match s.idr c id with
  | none => some (s, none)
  | some h => (handleGet s h).map fun s => (s, some h)

/-- The start of `ion_free`, with its `BUG_ON`. -/
def freeCheck (s : Store) (c : ClientId) (h : HandleId) : Option Bool :=
  if (s.handle h).client = c then handleValidate s c h else none

/-- Where a call goes on after its handle has been added. -/
def added (c : ClientId) (h : HandleId) : Option DmaBufId → Pc
  | none => .copyOut c h true
  | some d => .importEnd c d (some h)

/-- Where a call goes on after its handle could not be added. -/
def undone (c : ClientId) : Option DmaBufId → Pc
  | none => .idle
  | some d => .importEnd c d none

/-- One step of a call. -/
def advance (s : Store) (a : Answer) : Pc → Option (Store × Pc)
  | .idle => some (s, .idle)
  | .allocBuffer c b =>
      match a.kzalloc with
      | none => (bufferPut s b).map fun s => (s, .idle)
      | some h => (handleCreate s c b h).map fun s => (s, .allocHandle c b h)
  | .allocHandle c b h => (bufferPut s b).map fun s => (s, .add c h none)
  | .add c h d =>
      match a.idrAlloc with
      | none => some (s, .undo c h d)
      | some id =>
          (handleAdd s c h id).map fun r => (r.1, if r.2 then added c h d else .hung c h d)
  | .undo c h d => (handlePut s h).map fun s => (s, undone c d)
  | .hung c h d => some (s, .hung c h d)
  | .importDma c d =>
      match handleLookup s c (s.dmaBuffer d) with
      | none => none
      | some none => some (s, .importMissed c d)
      | some (some h) => (handleGet s h).map fun s => (s, .importEnd c d (some h))
  | .importMissed c d =>
      match a.kzalloc with
      | none => some (s, .importEnd c d none)
      | some h => (handleCreate s c (s.dmaBuffer d) h).map fun s => (s, .add c h (some d))
  | .importEnd c _ h => some (s, h.elim .idle fun h => .copyOut c h false)
  | .copyOut c h cleanup =>
      if a.copied ∨ cleanup = false then
        -- the handle's number was read
        if h ∈ s.handles.live then some (s, .idle) else none
      else (freeCheck s c h).map fun valid => (s, if valid then .cleanup c h else .idle)
  | .cleanup _ h => (handlePut s h).map fun s => (s, .idle)
  | .freeGot c h =>
      (freeCheck s c h).map fun valid => (s, if valid then .freeValid c h else .putLast c h)
  | .freeValid c h => (handlePut s h).map fun s => (s, .putLast c h)
  | .shareGot c h =>
      match handleValidate s c h with
      | none => none
      | some false => some (s, .putLast c h)
      | some true =>
          (bufferGet s (s.handle h).buffer).map fun t => (t, .shareBuffer c h (s.handle h).buffer)
  | .shareBuffer c h b =>
      match a.dmaBuf with
      | none => (bufferPut s b).map fun s => (s, .putLast c h)
      | some d => some (dmaBufExported s b d, .shareExported c h d)
  | .shareExported c h d =>
      if a.fd then some (s, .putLast c h)
      else (dmaBufRelease s d).map fun s => (s, .putLast c h)
  | .putLast _ h => (handlePut s h).map fun s => (s, .idle)

/-- The ledger after the step. A copy that fails leaves an import's reference with user space. -/
def ledger (owned : HandleId → Nat) (a : Answer) : Pc → HandleId → Nat
  | .copyOut _ h cleanup =>
      if a.copied ∨ cleanup = false then Function.update owned h (owned h + 1) else owned
  | .freeValid _ h => Function.update owned h (owned h - 1)
  | _ => owned

variable {Tid : Type*}

structure System (Tid : Type*) where
  store : Store
  pc : Tid → Pc
  owned : HandleId → Nat

/-- What may happen. An ioctl of a thread begins, with what it finds at once: a new buffer, or the
dma-buf of a file descriptor. A thread goes on. The last user of a dma-buf, or of a client, has
gone. -/
inductive Event (Tid : Type*) where
  | alloc (t : Tid) (c : ClientId) (b : Option BufferId)
  | free (t : Tid) (c : ClientId) (id : Nat)
  | share (t : Tid) (c : ClientId) (id : Nat)
  | importFd (t : Tid) (c : ClientId) (d : Option DmaBufId)
  | go (t : Tid) (a : Answer)
  | release (d : DmaBufId)
  | close (c : ClientId)

/-- The device as it comes up. -/
def started : System Tid := ⟨probed, fun _ => .idle, fun _ => 0⟩

section Step

variable [DecidableEq Tid]

def System.moved (s : System Tid) (t : Tid) (store : Store) (p : Pc) : System Tid :=
  { s with store := store, pc := Function.update s.pc t p }

/-- A call that begins with `ion_handle_get_by_id`. -/
def enter (s : System Tid) (t : Tid) (c : ClientId) (id : Nat) (p : HandleId → Pc) :
    Option (System Tid) :=
  (handleGetById s.store c id).map fun r => s.moved t r.1 (r.2.elim .idle p)

def step (s : System Tid) : Event Tid → Option (System Tid)
  | .alloc t c b =>
      some (b.elim s fun b => s.moved t (bufferCreated s.store b) (.allocBuffer c b))
  | .free t c id => enter s t c id (.freeGot c)
  | .share t c id => enter s t c id (.shareGot c)
  | .importFd t c d => some (d.elim s fun d => s.moved t s.store (.importDma c d))
  | .go t a =>
      (advance s.store a (s.pc t)).map fun r =>
        { s.moved t r.1 r.2 with owned := ledger s.owned a (s.pc t) }
  | .release d => (dmaBufRelease s.store d).map fun store => { s with store := store }
  | .close c =>
      (clientDestroy s.store c).map fun store =>
        { s with store := store, owned := fun h => if h ∈ s.store.tree c then 0 else s.owned h }

def next (s : System Tid) (e : Event Tid) : System Tid := (step s e).getD s

end Step

/-- Allocators return what is not in use. A file descriptor names a dma-buf that is there and has
one; a dma-buf goes when no thread uses it, a client when no thread is in it. -/
def Possible (s : System Tid) : Event Tid → Prop
  | .alloc t _ b => s.pc t = .idle ∧ ∀ x ∈ b, x ∉ s.store.buffers.live
  | .free t _ _ | .share t _ _ => s.pc t = .idle
  | .importFd t _ d => s.pc t = .idle ∧
      ∀ x ∈ d, x ∈ s.store.dmaBufs ∧ ∀ u, (s.pc u).exporting ≠ some x
  | .go t a => (∀ h ∈ a.kzalloc, h ∉ s.store.handles.live) ∧
      (∀ id ∈ a.idrAlloc, id ≠ 0 ∧ ∀ c ∈ (s.pc t).client, s.store.idr c id = none) ∧
      ∀ d ∈ a.dmaBuf, d ∉ s.store.dmaBufs
  | .release d => d ∈ s.store.dmaBufs ∧ ∀ t, (s.pc t).heldDma ≠ some d
  | .close c => ∀ t, (s.pc t).client ≠ some c

instance decidablePossible [Fintype Tid] (s : System Tid) : ∀ e, Decidable (Possible s e)
  | .alloc t _ b =>
      inferInstanceAs (Decidable (s.pc t = .idle ∧ ∀ x ∈ b, x ∉ s.store.buffers.live))
  | .free t _ _ | .share t _ _ => inferInstanceAs (Decidable (s.pc t = .idle))
  | .importFd t _ d => inferInstanceAs (Decidable (s.pc t = .idle ∧
      ∀ x ∈ d, x ∈ s.store.dmaBufs ∧ ∀ u, (s.pc u).exporting ≠ some x))
  | .go t a => inferInstanceAs (Decidable ((∀ h ∈ a.kzalloc, h ∉ s.store.handles.live) ∧
      (∀ id ∈ a.idrAlloc, id ≠ 0 ∧ ∀ c ∈ (s.pc t).client, s.store.idr c id = none) ∧
      ∀ d ∈ a.dmaBuf, d ∉ s.store.dmaBufs))
  | .release d => inferInstanceAs (Decidable (d ∈ s.store.dmaBufs ∧ ∀ t, (s.pc t).heldDma ≠ some d))
  | .close c => inferInstanceAs (Decidable (∀ t, (s.pc t).client ≠ some c))

/-- A free has a reference to give back, and an import that is about to add its handle finds none
for the buffer. -/
def FairAt (s : System Tid) (a : Answer) : Pc → Prop
  | .freeValid _ h => s.owned h ≠ 0
  | .add c h (some _) => a.idrAlloc = none ∨ ¬ Standing s.store c (s.store.handle h).buffer
  | _ => True

def Fair (s : System Tid) : Event Tid → Prop
  | .go t a => FairAt s a (s.pc t)
  | _ => True

instance decidableFairAt (s : System Tid) (a : Answer) : ∀ p, Decidable (FairAt s a p)
  | .freeValid _ h => inferInstanceAs (Decidable (s.owned h ≠ 0))
  | .add c h (some _) => inferInstanceAs (Decidable
      (a.idrAlloc = none ∨ ¬ Standing s.store c (s.store.handle h).buffer))
  | .idle | .allocBuffer _ _ | .allocHandle _ _ _ | .add _ _ none | .undo _ _ _ | .hung _ _ _
  | .importDma _ _ | .importMissed _ _ | .importEnd _ _ _ | .copyOut _ _ _ | .cleanup _ _
  | .freeGot _ _ | .shareGot _ _ | .shareBuffer _ _ _ | .shareExported _ _ _ | .putLast _ _ =>
      .isTrue trivial

instance decidableFair (s : System Tid) : ∀ e, Decidable (Fair s e)
  | .go t a => inferInstanceAs (Decidable (FairAt s a (s.pc t)))
  | .alloc _ _ _ | .free _ _ _ | .share _ _ _ | .importFd _ _ _ | .release _ | .close _ =>
      .isTrue trivial

section Covered

variable [Fintype Tid]

/-- The references on a handle: those user space owns and one for each thread that holds it. -/
def handleRefs (owned : HandleId → Nat) (pc : Tid → Pc) (h : HandleId) : Nat :=
  owned h + ∑ t, (pc t).holds h

def bufferRefs (pc : Tid → Pc) (b : BufferId) : Nat := ∑ t, (pc t).holdsBuffer b

/-- The count of each handle covers the references of the calls in flight, and no call hangs. -/
def Covered (s : System Tid) : Prop :=
  (∀ h, ∑ t, (s.pc t).holds h ≤ s.store.handles.count h) ∧ ∀ t, (s.pc t).isHung = false

end Covered

end LineageA1000.Ion
