import LineageA1000.Lib.Memory

/-!
# The loader of the stock camera libraries

`elfload_open` maps a library that the system's linker refuses. It takes one anonymous mapping for
all segments, copies them in, walks the dynamic table, applies the two relocation tables, gives the
pages the segments' permissions, runs the constructors and looks the wanted symbols up. All
arithmetic on addresses is that of a 32-bit process.

The loader's state is the process memory with a record of every access the function makes to the
file, to the mapping and to the caller's array. An address that no page backs is not told apart: the
access that would end the process there is recorded as any other.
-/

namespace LineageA1000.Elf

open Memory

/-! ### What is outside the function -/

/-- A 32-bit process and the system under it. -/
structure Env where
  /-- `open` and `fstat` succeed. -/
  opens : Bool
  file : List UInt8
  /-- What the buffer of `malloc` holds, or no buffer. -/
  malloc : Option (Nat → UInt8)
  mmap : BitVec 32 → Option Addr
  /-- A mapping starts at a page and does not wrap. -/
  mmap_block : ∀ span base, mmap span = some base →
    4096 ∣ base.toNat ∧ base.toNat + span.toNat ≤ 2 ^ 32
  memory : Memory
  /-- `dlsym(RTLD_DEFAULT, name)`. -/
  dlsym : List UInt8 → Addr
  a1000CxaTypeMatch : Addr
  a1000CxaBeginCleanup : Addr
  a1000CxaCallUnexpected : Addr
  /-- `mprotect` succeeds. -/
  mprotect : Addr → BitVec 32 → (read write exec : Bool) → Bool
  /-- What the code at an address does when it is called. -/
  call : Addr → Memory → Memory

/-- `pread` with the 32-bit `ssize_t` and `off_t`: the value returned and the bytes transferred. -/
def pread (file : List UInt8) (count offset : BitVec 32) : Int × Nat :=
  if count.msb ∨ offset.msb then (-1, 0)
  else
    let n := min (min count.toNat 0x7FFFF000) (file.length - offset.toNat)
    (n, n)

/-! ### The file's tables -/

def pageDown (x : BitVec 32) : BitVec 32 := x &&& ~~~(4096 - 1)

def pageUp (x : BitVec 32) : BitVec 32 := (x + 4096 - 1) &&& ~~~(4096 - 1)

def ptLoad : BitVec 32 := 1

def ptDynamic : BitVec 32 := 2

structure Phdr where
  pType : BitVec 32
  pOffset : BitVec 32
  pVaddr : BitVec 32
  pFilesz : BitVec 32
  pMemsz : BitVec 32
  pFlags : BitVec 32
deriving DecidableEq

def phdrAt (buffer : Nat → UInt8) (i : Nat) : Phdr :=
  let field (k : Nat) := le32 fun j => buffer (32 * i + k + j)
  ⟨field 0, field 4, field 8, field 16, field 20, field 24⟩

def elfMag : List UInt8 := [0x7F, 0x45, 0x4C, 0x46]

structure Ehdr where
  eIdent : List UInt8
  ePhoff : BitVec 32
  ePhentsize : BitVec 16
  ePhnum : BitVec 16

/-- `read` of the file's first 52 bytes, if there are that many. -/
def ehdrOf (file : List UInt8) : Option Ehdr :=
  if file.length < 52 then none
  else
    let byte := fun k => file.getD k 0
    some ⟨file.take 16, le32 fun k => byte (28 + k), le16 fun k => byte (42 + k),
      le16 fun k => byte (44 + k)⟩

/-! ### The loader's state -/

structure Protection where
  start : Addr
  size : BitVec 32
  read : Bool
  write : Bool
  exec : Bool
  done : Bool
deriving DecidableEq

structure Loader where
  memory : Memory
  /-- Ranges of the file that were read. -/
  fileReads : List (Nat × Nat)
  zeroed : List (Addr × Nat)
  copied : List (Addr × Nat)
  /-- The words that were relocated. -/
  relocated : List Addr
  protections : List Protection
  called : List Addr
  out : List Addr
  unmapped : Bool
  result : Addr

def start (env : Env) (out : List Addr) : Loader where
  memory := env.memory
  fileReads := []
  zeroed := []
  copied := []
  relocated := []
  protections := []
  called := []
  out := out
  unmapped := false
  result := 0

def Loader.fileRead (offset n : Nat) (l : Loader) : Loader :=
  { l with fileReads := l.fileReads ++ [(offset, n)] }

/-! ### The program headers -/

/-- The header checks. The buffer of the program headers keeps what `malloc` left in it where
`pread` brings less than it holds. -/
def readHeaders (env : Env) (l : Loader) : Loader × Option (List Phdr) :=
  if env.opens = false then (l, none)
  else
    let l := l.fileRead 0 (min 52 env.file.length)
    match ehdrOf env.file with
    | none => (l, none)
    | some eh =>
        if eh.eIdent.take 4 ≠ elfMag ∨ eh.eIdent.getD 4 0 ≠ 1 then (l, none)
        else
          match env.malloc with
          | none => (l, none)
          | some buffer =>
              let size : BitVec 32 := eh.ePhnum.setWidth 32 * eh.ePhentsize.setWidth 32
              let (got, n) := pread env.file size eh.ePhoff
              let l := l.fileRead eh.ePhoff.toNat n
              if got < 0 then (l, none)
              else
                let table := fun k =>
                  if k < n then env.file.getD (eh.ePhoff.toNat + k) 0 else buffer k
                (l, some ((List.range eh.ePhnum.toNat).map (phdrAt table)))

/-- One round of the loop that finds `lo_v` and `hi_v`. -/
def widen (bounds : BitVec 32 × BitVec 32) (ph : Phdr) : BitVec 32 × BitVec 32 :=
  if ph.pType ≠ ptLoad then bounds
  else
    (if ph.pVaddr < bounds.1 then ph.pVaddr else bounds.1,
      if bounds.2 < ph.pVaddr + ph.pMemsz then ph.pVaddr + ph.pMemsz else bounds.2)

def bounds (phs : List Phdr) : BitVec 32 × BitVec 32 := phs.foldl widen (-1, 0)

/-! ### Segments -/

/-- `base` is `lo.base`, the address of the library's address zero. -/
def copySegment (env : Env) (base : Addr) (ph : Phdr) (l : Loader) : Loader × Bool :=
  if ph.pType ≠ ptLoad ∨ ph.pFilesz = 0 then (l, true)
  else
    let (got, n) := pread env.file ph.pFilesz ph.pOffset
    ({ l with
        fileReads := l.fileReads ++ [(ph.pOffset.toNat, n)]
        copied := l.copied ++ [(base + ph.pVaddr, n)]
        memory := l.memory.copyTo (base + ph.pVaddr) n fun k =>
          env.file.getD (ph.pOffset.toNat + k) 0 },
      got = ph.pFilesz.toInt)

def copySegments (env : Env) (base : Addr) : List Phdr → Loader → Loader × Bool
  | [], l => (l, true)
  | ph :: phs, l =>
      match copySegment env base ph l with
      | (l, false) => (l, false)
      | (l, true) => copySegments env base phs l

/-! ### The dynamic table -/

def findDynamic (base : Addr) (phs : List Phdr) : Addr :=
  phs.foldl (fun dyn ph => if ph.pType = ptDynamic then base + ph.pVaddr else dyn) 0

/-- What the dynamic table names. A null pointer is `0`. -/
structure Tables where
  symtab : Addr
  strtab : Addr
  hash : Addr
  rel : Addr
  relsz : BitVec 32
  jmprel : Addr
  jmprelsz : BitVec 32
  initArray : BitVec 32
  initArraysz : BitVec 32
deriving DecidableEq

def noTables : Tables := ⟨0, 0, 0, 0, 0, 0, 0, 0, 0⟩

/-- The `switch` on a tag of the dynamic table. -/
def Tables.entry (base : Addr) (tag val : BitVec 32) (t : Tables) : Tables :=
  if tag = 6 then { t with symtab := base + val }
  else if tag = 5 then { t with strtab := base + val }
  else if tag = 4 then { t with hash := base + val }
  else if tag = 17 then { t with rel := base + val }
  else if tag = 18 then { t with relsz := val }
  else if tag = 23 then { t with jmprel := base + val }
  else if tag = 2 then { t with jmprelsz := val }
  else if tag = 25 then { t with initArray := val }
  else if tag = 27 then { t with initArraysz := val }
  else t

/-- The walk over the dynamic table. There are no more entries than the fuel of `readDynamic`, so a
walk that meets no `DT_NULL` never ends. -/
def walkDynamic (memory : Memory) (base : Addr) : Nat → Addr → Tables → Option Tables
  | 0, _, _ => none
  | n + 1, dyn, t =>
      if memory.word dyn = 0 then some t
      else
        walkDynamic memory base n (dyn + 8)
          (t.entry base (memory.word dyn) (memory.word (dyn + 4)))

def readDynamic (memory : Memory) (base dyn : Addr) : Option Tables :=
  walkDynamic memory base (2 ^ 29) dyn noTables

/-! ### Symbols -/

/-- `struct loaded`, without the mapping's size. -/
structure Loaded where
  base : Addr
  symtab : Addr
  strtab : Addr
  nsyms : BitVec 32

def legacyAbi (env : Env) (name : List UInt8) : Addr :=
  if name = "__cxa_type_match".toUTF8.toList then env.a1000CxaTypeMatch
  else if name = "__cxa_begin_cleanup".toUTF8.toList then env.a1000CxaBeginCleanup
  else if name = "__cxa_call_unexpected".toUTF8.toList then env.a1000CxaCallUnexpected
  else 0

/-- The first defined symbol of the name, from symbol `i` on. -/
def ownSymbol (memory : Memory) (lo : Loaded) (name : List UInt8) : Nat → Addr → Option Addr
  | 0, _ => none
  | n + 1, s =>
      if memory.half (s + 14) ≠ 0 ∧ memory.word (s + 4) ≠ 0 ∧
          memory.cstring (lo.strtab + memory.word s) = name then
        some (lo.base + memory.word (s + 4))
      else ownSymbol memory lo name n (s + 16)

def resolve (env : Env) (memory : Memory) (lo : Loaded) (name : List UInt8) : Addr :=
  match ownSymbol memory lo name lo.nsyms.toNat lo.symtab with
  | some p => p
  | none => if env.dlsym name ≠ 0 then env.dlsym name else legacyAbi env name

/-! ### Relocations -/

def rArmAbs32 : BitVec 32 := 2

def rArmGlobDat : BitVec 32 := 21

def rArmJumpSlot : BitVec 32 := 22

def rArmRelative : BitVec 32 := 23

def Loader.relocate (slot : Addr) (w : BitVec 32) (l : Loader) : Loader :=
  { l with memory := l.memory.storeWord slot w, relocated := l.relocated ++ [slot] }

/-- The word that the entry at `r` relocates. -/
def slotAt (memory : Memory) (base r : Addr) : Addr := base + memory.word r

def relocateEntry (env : Env) (lo : Loaded) (r : Addr) (l : Loader) : Loader × Bool :=
  let info := l.memory.word (r + 4)
  let type := info &&& 0xFF
  let si := info >>> 8
  let slot := slotAt l.memory lo.base r
  if type = rArmRelative then (l.relocate slot (l.memory.word slot + lo.base), true)
  else if type = rArmGlobDat ∨ type = rArmJumpSlot ∨ type = rArmAbs32 then
    let name := l.memory.cstring (lo.strtab + l.memory.word (lo.symtab + 16 * si))
    let val := resolve env l.memory lo name
    if val = 0 then (l, false)
    else if type = rArmAbs32 then (l.relocate slot (l.memory.word slot + val), true)
    else (l.relocate slot val, true)
  else (l, false)

def relocateEntries (env : Env) (lo : Loaded) : Nat → Addr → Loader → Loader × Bool
  | 0, _, l => (l, true)
  | n + 1, r, l =>
      match relocateEntry env lo r l with
      | (l, false) => (l, false)
      | (l, true) => relocateEntries env lo n (r + 8) l

/-- One pass: a null table has no entries. -/
def relocatePass (env : Env) (lo : Loaded) (r : Addr) (size : BitVec 32) (l : Loader) :
    Loader × Bool :=
  if r = 0 then (l, true) else relocateEntries env lo (size.toNat / 8) r l

/-! ### Permissions, constructors, symbols -/

def protect (env : Env) (base : Addr) (ph : Phdr) (l : Loader) : Loader :=
  if ph.pType ≠ ptLoad then l
  else
    let start := base + pageDown ph.pVaddr
    let size := base + pageUp (ph.pVaddr + ph.pMemsz) - start
    { l with
      protections := l.protections ++
        [⟨start, size, ph.pFlags.getLsbD 2, ph.pFlags.getLsbD 1, ph.pFlags.getLsbD 0,
          env.mprotect start size (ph.pFlags.getLsbD 2) (ph.pFlags.getLsbD 1)
            (ph.pFlags.getLsbD 0)⟩] }

/-- The constructors, from `fns` on. -/
def runConstructors (env : Env) : Nat → Addr → Loader → Loader
  | 0, _, l => l
  | n + 1, fns, l =>
      let fn := l.memory.word fns
      if fn ≠ 0 ∧ fn ≠ -1 then
        runConstructors env n (fns + 4)
          { l with memory := env.call fn l.memory, called := l.called ++ [fn] }
      else runConstructors env n (fns + 4) l

/-- The wanted symbols, from entry `i` of `out` on. -/
def findWanted (env : Env) (lo : Loaded) : List (List UInt8) → Nat → Loader → Loader × Bool
  | [], _, l => (l, true)
  | name :: want, i, l =>
      let p := resolve env l.memory lo name
      let l := { l with out := l.out.set i p }
      if p = 0 then (l, false) else findWanted env lo want (i + 1) l

/-! ### The whole function -/

/-- The library once its segments are copied and its tables found. -/
structure Image where
  phs : List Phdr
  base : Addr
  tables : Tables
deriving DecidableEq

/-- The mapping with the segments in it, up to the check that the tables are there. -/
def mapImage (env : Env) (phs : List Phdr) (base : Addr) (l : Loader) : Loader × Option Image :=
  match copySegments env base phs l with
  | (l, false) => (l, none)
  | (l, true) =>
      let dyn := findDynamic base phs
      if dyn = 0 then (l, none)
      else
        match readDynamic l.memory base dyn with
        | none => (l, none)
        | some t =>
            if t.symtab = 0 ∨ t.strtab = 0 ∨ t.hash = 0 then (l, none)
            else (l, some ⟨phs, base, t⟩)

/-- `struct loaded` for an image: `nchain` of the hash table is the number of symbols. -/
def Image.loaded (image : Image) (memory : Memory) : Loaded :=
  ⟨image.base, image.tables.symtab, image.tables.strtab, memory.word (image.tables.hash + 4)⟩

def relocateImage (env : Env) (image : Image) (l : Loader) : Loader × Bool :=
  let lo := image.loaded l.memory
  match relocatePass env lo image.tables.rel image.tables.relsz l with
  | (l, false) => (l, false)
  | (l, true) => relocatePass env lo image.tables.jmprel image.tables.jmprelsz l

/-- From the relocations to the wanted symbols. -/
def finishImage (env : Env) (want : List (List UInt8)) (image : Image) (l : Loader) :
    Loader × Bool :=
  let lo := image.loaded l.memory
  match relocateImage env image l with
  | (l, false) => (l, false)
  | (l, true) =>
      let l := image.phs.foldl (fun l ph => protect env image.base ph l) l
      let l :=
        if image.tables.initArray ≠ 0 ∧ image.tables.initArraysz ≠ 0 then
          runConstructors env (image.tables.initArraysz.toNat / 4)
            (image.base + image.tables.initArray) l
        else l
      findWanted env lo want 0 l

/-- The bytes between the first page of the lowest segment and the last of the highest. -/
def spanOf (phs : List Phdr) : BitVec 32 := pageUp (bounds phs).2 - pageDown (bounds phs).1

/-- The program headers, the mapping's address and the loader once the mapping is there. -/
def openMapping (env : Env) (out : List Addr) : Loader × Option (List Phdr × Addr) :=
  match readHeaders env (start env out) with
  | (l, none) => (l, none)
  | (l, some phs) =>
      if (bounds phs).1 = -1 then (l, none)
      else
        match env.mmap (spanOf phs) with
        | none => (l, none)
        | some base =>
            ({ l with
                memory := l.memory.copyTo base (spanOf phs).toNat fun _ => 0
                zeroed := l.zeroed ++ [(base, (spanOf phs).toNat)] }, some (phs, base))

/-- `lo.base` for a mapping. -/
def loadBase (phs : List Phdr) (base : Addr) : Addr := base - pageDown (bounds phs).1

def elfloadOpen (env : Env) (want : List (List UInt8)) (out : List Addr) : Loader :=
  match openMapping env out with
  | (l, none) => l
  | (l, some (phs, base)) =>
      match mapImage env phs (loadBase phs base) l with
      | (l, none) => { l with unmapped := true }
      | (l, some image) =>
          match finishImage env want image l with
          | (l, false) => { l with unmapped := true }
          | (l, true) => { l with result := image.base }

end LineageA1000.Elf
