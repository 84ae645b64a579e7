import LineageA1000.Lib.Errno
import Mathlib.Data.BitVec
import Mathlib.Data.List.Basic

/-!
# Redirected allocations

`ion_alloc` walks over the heaps the caller's mask names and takes the first that can serve. Two
requests are redirected: one the size of the screen to the overlay's carveout, one for any heap to
the system heap. Where that heap fails, the walk is made again with the caller's mask. So a
redirected allocation is the plain one with a heap tried in front.
-/

namespace LineageA1000.Ion

abbrev Word := BitVec 32

/-- A heap of the device; its id is a bit of the mask. -/
structure Heap where
  id : Fin 32
  carveout : Bool
  deferFree : Bool
  deriving DecidableEq, Repr

/-- What `map_dma` returns: nothing, an error or a table. -/
inductive Table where
  | null
  | err (e : {e : Int // 0 < e})
  | table
  deriving DecidableEq, Repr

/-- What a heap and the kernel answer while a buffer is created: the two attempts of `allocate`, the
second after the free list has been drained, the table, and the memory for the rest. -/
structure HeapAnswer where
  kzalloc : Bool
  allocate : Option {e : Int // 0 < e}
  allocateDrained : Option {e : Int // 0 < e}
  mapDma : Table
  vmalloc : Bool
  deriving DecidableEq, Repr

structure Buffer where
  heap : Heap
  size : Word
  flags : Word
  deriving DecidableEq, Repr

/-- The arguments of `ion_alloc`. -/
structure Request where
  len : Word
  align : Word
  heapIdMask : Word
  flags : Word
  deriving DecidableEq, Repr

abbrev ENODEV : Int := 19
abbrev ION_FLAG_CACHED : Word := 1
abbrev ION_FLAG_CACHED_NEEDS_SYNC : Word := 2

/-- `ion_buffer_fault_user_mappings`. -/
def faultUserMappings (flags : Word) : Bool :=
  flags &&& ION_FLAG_CACHED != 0 && flags &&& ION_FLAG_CACHED_NEEDS_SYNC == 0

/-- `ion_buffer_create`. -/
def bufferCreate (heap : Heap) (len flags : Word) (a : HeapAnswer) : Except Int Buffer :=
  if a.kzalloc = false then .error (-ENOMEM)
  else
    let ret :=
      match a.allocate with
      | none => none
      | some e => if heap.deferFree then a.allocateDrained else some e
    match ret with
    | some e => .error (-e)
    | none =>
        match a.mapDma with
        | .null => .error (-EINVAL)
        | .err e => .error (-e)
        | .table =>
            if faultUserMappings flags ∧ a.vmalloc = false then .error (-ENOMEM)
            else .ok ⟨heap, len, flags⟩

/-- `(1 << heap->id) & heap_id_mask`. -/
def selects (mask : Word) (heap : Heap) : Bool := (1 <<< heap.id.val) &&& mask != 0

/-- The walk over the heaps; `buffer` starts as the null pointer and keeps the last failure. -/
def walk (create : Heap → Except Int Buffer) (mask : Word) :
    List Heap → Option (Except Int Buffer) → Option (Except Int Buffer)
  | [], buffer => buffer
  | h :: hs, buffer =>
      if selects mask h then
        match create h with
        | .ok b => some (.ok b)
        | .error e => walk create mask hs (some (.error e))
      else walk create mask hs buffer

def failed : Option (Except Int Buffer) → Bool
  | some (.ok _) => false
  | _ => true

def pageAlign (len : Word) : Word := (len + 4095) &&& ~~~4095

/-- The heap a request of this aligned length and mask is redirected to. -/
def forced (len mask : Word) : Option (Fin 32) :=
  if len = 480 * 800 * 4 then some 3 else if mask = ~~~0 then some 1 else none

/-- The walks from `a1000_retry` on, and the masks they went by. -/
def retry (create : Heap → Except Int Buffer) (heaps : List Heap) (origMask : Word) :
    Nat → Word → Bool → Option (Option (Except Int Buffer) × List Word)
  | 0, _, _ => none
  | fuel + 1, mask, fallback =>
      let buffer := walk create mask heaps none
      if failed buffer ∧ fallback then
        (retry create heaps origMask fuel origMask false).map fun r => (r.1, mask :: r.2)
      else some (buffer, [mask])

/-- What the kernel answers when the handle is made: whether there is memory for it, and whether the
client has a number for it. -/
structure HandleAnswer where
  kzalloc : Bool
  add : Option {e : Int // 0 < e}
  deriving DecidableEq, Repr

/-- The end of `ion_alloc`: the buffer behind the handle, or an error. -/
def handle (a : HandleAnswer) : Option (Except Int Buffer) → Except Int Buffer
  | none => .error (-ENODEV)
  | some (.error e) => .error e
  | some (.ok b) =>
      if a.kzalloc = false then .error (-ENOMEM)
      else
        match a.add with
        | some e => .error (-e)
        | none => .ok b

/-- What every heap answers to a request of this aligned length. -/
abbrev World := Word → Word → Word → Heap → HeapAnswer

def creates (w : World) (r : Request) (heap : Heap) : Except Int Buffer :=
  bufferCreate heap (pageAlign r.len) r.flags (w (pageAlign r.len) r.align r.flags heap)

/-- `ion_alloc`, with the masks of the walks it made. -/
def ionAlloc (fuel : Nat) (heaps : List Heap) (w : World) (a : HandleAnswer) (r : Request) :
    Option (Except Int Buffer × List Word) :=
  if r.len = 0 then some (.error (-EINVAL), [])
  else
    let walks :=
      match forced (pageAlign r.len) r.heapIdMask with
      | some id => retry (creates w r) heaps r.heapIdMask fuel (1 <<< id.val) true
      | none => retry (creates w r) heaps r.heapIdMask fuel r.heapIdMask false
    walks.map fun (buffer, masks) => (handle a buffer, masks)

/-- `ion_alloc` without the redirection. -/
def ionAllocPlain (heaps : List Heap) (w : World) (a : HandleAnswer) (r : Request) :
    Except Int Buffer :=
  if r.len = 0 then .error (-EINVAL)
  else handle a (walk (creates w r) r.heapIdMask heaps none)

/-! ### The walk -/

/-- The mask of a single heap selects the heaps of that id. -/
theorem selects_single (id : Fin 32) (heap : Heap) :
    selects (1 <<< id.val) heap = true ↔ heap.id = id := by
  have htable : ∀ i j : Fin 32,
      ((1 <<< i.val) &&& ((1 : Word) <<< j.val) != 0) = true ↔ i = j := by decide +kernel
  exact htable heap.id id

variable {create : Heap → Except Int Buffer} {mask : Word} {heaps : List Heap}

theorem walk_mem {buffer : Option (Except Int Buffer)} (hbuffer : failed buffer = true) {b : Buffer}
    (h : walk create mask heaps buffer = some (.ok b)) :
    ∃ heap ∈ heaps, selects mask heap = true ∧ create heap = .ok b := by
  induction heaps generalizing buffer with
  | nil =>
      rw [walk] at h
      rw [h] at hbuffer
      cases hbuffer
  | cons heap heaps ih =>
      rw [walk] at h
      have htail {buffer : Option (Except Int Buffer)} (hbuffer : failed buffer = true)
          (h : walk create mask heaps buffer = some (.ok b)) :
          ∃ heap' ∈ heap :: heaps, selects mask heap' = true ∧ create heap' = .ok b := by
        obtain ⟨heap', hmem, hserves⟩ := ih hbuffer h
        exact ⟨heap', List.mem_cons_of_mem heap hmem, hserves⟩
      split at h
      · rename_i hselects
        cases hcreate : create heap with
        | ok b' =>
            rw [hcreate, Option.some.injEq, Except.ok.injEq] at h
            exact ⟨heap, List.mem_cons_self, hselects, hcreate.trans (congrArg Except.ok h)⟩
        | error e =>
            rw [hcreate] at h
            exact htail rfl h
      · exact htail hbuffer h

theorem walk_serves (buffer : Option (Except Int Buffer)) {heap : Heap} (hmem : heap ∈ heaps)
    (hselects : selects mask heap = true) {b : Buffer} (hcreate : create heap = .ok b) :
    ∃ b', walk create mask heaps buffer = some (.ok b') := by
  induction heaps generalizing buffer with
  | nil => cases hmem
  | cons first heaps ih =>
      rw [walk]
      obtain rfl | hmem := List.mem_cons.1 hmem
      · rw [if_pos hselects, hcreate]
        exact ⟨b, rfl⟩
      · split
        · cases hfirst : create first with
          | ok b' => exact ⟨b', rfl⟩
          | error e => exact ih _ hmem
        · exact ih buffer hmem

theorem failed_eq_false {buffer : Option (Except Int Buffer)} :
    failed buffer = false ↔ ∃ b, buffer = some (.ok b) := by
  unfold failed
  split
  · rename_i b
    exact ⟨fun _ => ⟨b, rfl⟩, fun _ => rfl⟩
  · rename_i hne
    exact ⟨fun h => (Bool.noConfusion h), fun ⟨b, hb⟩ => (hne b hb).elim⟩

theorem bufferCreate_heap {heap : Heap} {len flags : Word} {a : HeapAnswer} {b : Buffer}
    (h : bufferCreate heap len flags a = .ok b) : b = ⟨heap, len, flags⟩ := by
  unfold bufferCreate at h
  dsimp only at h
  repeat' split at h
  all_goals cases h <;> rfl

/-! ### The retry -/

/-- Without the flag there is one walk. -/
theorem retry_last (origMask : Word) (fuel : Nat) :
    retry create heaps origMask (fuel + 1) mask false =
      some (walk create mask heaps none, [mask]) := by
  rw [retry]
  simp

/-- With it there are at most two, and the second goes by the caller's mask. -/
theorem retry_first (origMask : Word) (fuel : Nat) :
    retry create heaps origMask (fuel + 2) mask true =
      if failed (walk create mask heaps none) then
        some (walk create origMask heaps none, [mask, origMask])
      else some (walk create mask heaps none, [mask]) := by
  rw [retry, retry_last]
  simp

/-! ### The allocation -/

/-- A buffer that is handed out is the one the walk found. -/
theorem handle_ok {a : HandleAnswer} {buffer : Option (Except Int Buffer)} {b : Buffer}
    (h : handle a buffer = .ok b) : buffer = some (.ok b) := by
  unfold handle at h
  repeat' split at h
  all_goals cases h <;> rfl

/-- Whether the handle can be made does not depend on the buffer. -/
theorem handle_ok_of {a : HandleAnswer} {b : Buffer} {b' b'' : Buffer}
    (h : handle a (some (.ok b)) = .ok b') : handle a (some (.ok b'')) = .ok b'' := by
  unfold handle at h ⊢
  dsimp only at h ⊢
  split at h
  · cases h
  · rename_i hkzalloc
    rw [if_neg hkzalloc]
    split at h
    · cases h
    · rfl

/-- A buffer that is handed out is from a heap of the list the mask selects. -/
theorem handle_walk {w : World} {r : Request} {a : HandleAnswer} {b : Buffer}
    (h : handle a (walk (creates w r) mask heaps none) = .ok b) :
    b.heap ∈ heaps ∧ selects mask b.heap = true := by
  obtain ⟨heap, hmem, hselects, hcreate⟩ := walk_mem rfl (handle_ok h)
  rw [bufferCreate_heap hcreate]
  exact ⟨hmem, hselects⟩

theorem ionAllocPlain_ok {w : World} {r : Request} {a : HandleAnswer} {b : Buffer}
    (h : ionAllocPlain heaps w a r = .ok b) :
    handle a (walk (creates w r) r.heapIdMask heaps none) = .ok b := by
  unfold ionAllocPlain at h
  split at h
  · cases h
  · exact h

/-- What `ion_alloc` comes to: with a forced heap in front, or as it always was. -/
theorem ionAlloc_eq (fuel : Nat) (heaps : List Heap) (w : World) (a : HandleAnswer) (r : Request) :
    ionAlloc (fuel + 2) heaps w a r =
      if r.len = 0 then some (.error (-EINVAL), [])
      else
        match forced (pageAlign r.len) r.heapIdMask with
        | none => some (ionAllocPlain heaps w a r, [r.heapIdMask])
        | some id =>
            if failed (walk (creates w r) (1 <<< id.val) heaps none) then
              some (ionAllocPlain heaps w a r, [1 <<< id.val, r.heapIdMask])
            else
              some (handle a (walk (creates w r) (1 <<< id.val) heaps none), [1 <<< id.val]) := by
  unfold ionAlloc ionAllocPlain
  split
  · rfl
  · cases forced (pageAlign r.len) r.heapIdMask with
    | none =>
        rw [retry_last]
        rfl
    | some id =>
        dsimp only
        rw [retry_first]
        split <;> rfl

/-- A request for any heap that the system heap can serve, and that is not of the screen's size,
gets nothing of a carveout. The id 1 is the system heap's. -/
theorem ionAlloc_any_spares (heaps : List Heap) (w : World) (a : HandleAnswer) (r : Request)
    (hany : r.heapIdMask = ~~~0) (hlen : pageAlign r.len ≠ 480 * 800 * 4)
    (hsystem : ∀ heap ∈ heaps, heap.id = 1 → heap.carveout = false)
    (hserves : ∃ heap ∈ heaps, heap.id = 1 ∧ ∃ b, creates w r heap = .ok b) (fuel : Nat)
    (b : Buffer) (masks : List Word)
    (hb : ionAlloc (fuel + 2) heaps w a r = some (.ok b, masks)) :
    b.heap.carveout = false := by
  obtain ⟨heap, hmem, hid, b', hcreate⟩ := hserves
  have hforced : forced (pageAlign r.len) r.heapIdMask = some 1 := by
    rw [forced, if_neg hlen, if_pos hany]
  obtain ⟨b'', hwalk⟩ := walk_serves none hmem ((selects_single 1 heap).2 hid) hcreate
  rw [ionAlloc_eq, hforced] at hb
  split at hb
  · cases hb
  · simp only [failed_eq_false.2 ⟨b'', hwalk⟩, Bool.false_eq_true, if_false, Option.some.injEq,
      Prod.mk.injEq] at hb
    obtain ⟨hmem, hselects⟩ := handle_walk hb.1
    exact hsystem b.heap hmem ((selects_single 1 b.heap).1 hselects)

/-- A device with its three heaps in the order of the list. -/
def threeHeaps : List Heap := [⟨3, true, false⟩, ⟨2, true, false⟩, ⟨1, false, true⟩]

/-- Every heap can serve. -/
def allServe : World := fun _ _ _ _ => ⟨true, none, none, .table, true⟩

theorem ionAlloc_any_spares_page :
    ionAlloc 2 threeHeaps allServe ⟨true, none⟩ ⟨4096, 0, ~~~0, 0⟩ =
        some (.ok (Buffer.mk ⟨1, false, true⟩ 4096 0), [2]) ∧
      (Buffer.mk ⟨1, false, true⟩ 4096 0).heap.carveout = false :=
  ⟨by decide, ionAlloc_any_spares threeHeaps allServe ⟨true, none⟩ ⟨4096, 0, ~~~0, 0⟩ rfl
    (by decide) (by decide)
    ⟨⟨1, false, true⟩, by decide, rfl, ⟨⟨1, false, true⟩, 4096, 0⟩, by decide⟩ 0 _ [2]
    (by decide)⟩

/-- A request for any heap of the screen's size: the buffer is the overlay carveout's. -/
theorem ionAlloc_any_screen :
    (ionAlloc 2 threeHeaps allServe ⟨true, none⟩ ⟨480 * 800 * 4, 0, ~~~0, 0⟩).map Prod.fst =
        some (.ok (Buffer.mk ⟨3, true, false⟩ (480 * 800 * 4) 0)) ∧
      creates allServe ⟨480 * 800 * 4, 0, ~~~0, 0⟩ ⟨1, false, true⟩ =
        .ok ⟨⟨1, false, true⟩, 480 * 800 * 4, 0⟩ := by
  decide

end LineageA1000.Ion
