import LineageA1000.BootImg.Assemble
import LineageA1000.BootImg.CpioArchive

/-!
# Replacing a file of the ramdisk

`ramdisk_open` and `cmd_replace` of `a1000_bootimg_tool.py`, over zlib and gzip as a parameter. The
decompressor object stops at the end of the first gzip member and what follows it is dropped before
the unchanged rebuild is compared, so the guard never sees the other members.
-/

namespace LineageA1000.BootImg

open Bytes

/-- A `zlib.decompressobj` that has been given a byte string: its output, the `unused_data` behind
the end of the first member, and whether that end was reached. -/
structure Inflated where
  out : Bytes
  unused : Bytes
  eof : Bool
  deriving DecidableEq

/-- `gzip.GzipFile(mode='wb', compresslevel=9, mtime=0)` on a whole string, and
`zlib.decompressobj(16 + zlib.MAX_WBITS).decompress`. -/
structure GzipCodec where
  compress : Bytes → Bytes
  inflate : Bytes → Except Fault Inflated

/-- A compressed string is one member, which ends where it ends whatever follows; an empty input has
no member. -/
structure GzipCodec.Correct (c : GzipCodec) : Prop where
  inflate_compress : ∀ x rest, c.inflate (c.compress x ++ rest) = .ok ⟨x, rest, true⟩
  inflate_nil : c.inflate [] = .ok ⟨[], [], false⟩

def ramdiskOpen (c : GzipCodec) (fuel : Nat) (rd : Bytes) :
    Option (Except Fault (List Item × Bytes)) :=
  match c.inflate rd with
  | .error e => some (.error e)
  | .ok r =>
      match cpioParse fuel r.out with
      | none => none
      | some (.error e) => some (.error e)
      | some (.ok (items, tail)) =>
          if cpioBuild items tail ≠ r.out then some (.error .repackDiffers)
          else some (.ok (items, tail))

/-- `it[2] = new` for the items with the name. -/
def setData (name new : Bytes) (it : Item) : Item :=
  if it.name = name then { it with data := new } else it

/-- What `cmd_replace` writes to its output file. -/
def cmdReplace (c : GzipCodec) (fuel : Nat) (d name new : Bytes) : Option (Except Fault Bytes) :=
  match split d with
  | .error e => some (.error e)
  | .ok p =>
      match ramdiskOpen c fuel p.rd with
      | none => none
      | some (.error e) => some (.error e)
      | some (.ok (items, tail)) =>
          if ∀ it ∈ items, it.name ≠ name then some (.error (.noSuchFile name))
          else
            let cpio := cpioBuild (items.map (setData name new)) tail
            some (assemble d p.kernel (c.compress cpio) p.dt)

/-! ### The complete ramdisk -/

/-- The outputs of all gzip members that make up a byte string. -/
inductive Gunzips (c : GzipCodec) : Bytes → List Bytes → Prop
  | nil : Gunzips c [] []
  | member {rd : Bytes} {r : Inflated} {outs : List Bytes} (hmember : c.inflate rd = .ok r)
      (heof : r.eof = true) (hrest : Gunzips c r.unused outs) : Gunzips c rd (r.out :: outs)

/-- The complete ramdisk section of the image, decompressed and parsed. -/
def RamdiskReads (c : GzipCodec) (d : Bytes) (items : List Item) (tail : Bytes) : Prop :=
  ∃ p outs fuel, split d = .ok p ∧ Gunzips c p.rd outs ∧
    cpioParse fuel outs.flatten = some (.ok (items, tail))

/-- The item with the new data, and the new size in its header. -/
def replaced (name new : Bytes) (it : Item) : Item :=
  if it.name = name then
    { it with hdr := it.hdr.setSlice 54 62 (fmt08X new.length), data := new }
  else it

/-- The new image holds the same items in the same order and the same bytes behind them, and only
the data of the named item is new. -/
def Preserved (c : GzipCodec) (d out name new : Bytes) : Prop :=
  ∃ items tail, RamdiskReads c d items tail ∧
    RamdiskReads c out (items.map (replaced name new)) tail

/-- The ramdisk section is a sequence of gzip members of which only the first holds anything, the
new data fits the size field, and the header fits its page. -/
structure ReplaceKeeps (c : GzipCodec) (p : Parts) (new : Bytes) : Prop where
  headerPage : hdrFields ≤ p.hdr.ps
  newSize : new.length < 2 ^ 32
  oneMember : ∃ first rest, Gunzips c p.rd (first :: rest) ∧ rest.flatten = []

section Gunzips

variable {c : GzipCodec}

theorem Gunzips.of_inflate {rd : Bytes} {r : Inflated} (hrd : rd ≠ [])
    (hinflate : c.inflate rd = .ok r) {outs : List Bytes} (hall : Gunzips c rd outs) :
    ∃ rest, outs = r.out :: rest := by
  cases hall with
  | nil => exact absurd rfl hrd
  | @member _ r' outs' hmember _ _ =>
      rw [hinflate, Except.ok.injEq] at hmember
      exact ⟨outs', by rw [hmember]⟩

theorem compress_ne_nil (hc : c.Correct) (x : Bytes) : c.compress x ≠ [] := by
  intro hnil
  have hinflate := hc.inflate_compress x []
  rw [hnil, List.append_nil, hc.inflate_nil] at hinflate
  cases hinflate

theorem gunzips_nil_iff (hc : c.Correct) {outs : List Bytes} : Gunzips c [] outs ↔ outs = [] := by
  constructor
  · intro hall
    cases hall with
    | nil => rfl
    | member hmember heof =>
        rw [hc.inflate_nil] at hmember
        cases hmember
        cases heof
  · rintro rfl
    exact .nil

theorem gunzips_compress_append_iff (hc : c.Correct) (x rd : Bytes) {outs : List Bytes} :
    Gunzips c (c.compress x ++ rd) outs ↔ ∃ outs', outs = x :: outs' ∧ Gunzips c rd outs' := by
  have hinflate := hc.inflate_compress x rd
  constructor
  · intro hall
    generalize hgz : c.compress x ++ rd = gz at hall hinflate
    cases hall with
    | nil => exact absurd (List.append_eq_nil_iff.1 hgz).1 (compress_ne_nil hc x)
    | member hmember _ hrest =>
        rw [hinflate] at hmember
        cases hmember
        exact ⟨_, rfl, hrest⟩
  · rintro ⟨outs', rfl, hrest⟩
    exact .member hinflate rfl hrest

theorem gunzips_compress_iff (hc : c.Correct) (x : Bytes) {outs : List Bytes} :
    Gunzips c (c.compress x) outs ↔ outs = [x] := by
  have hmember := @gunzips_compress_append_iff c hc x [] outs
  rw [List.append_nil] at hmember
  rw [hmember]
  simp only [gunzips_nil_iff hc, exists_eq_right]

end Gunzips

/-! ### What the command wrote -/

theorem ramdiskOpen_eq_ok {c : GzipCodec} {fuel : Nat} {rd tail : Bytes} {items : List Item}
    (hopen : ramdiskOpen c fuel rd = some (.ok (items, tail))) :
    ∃ r, c.inflate rd = .ok r ∧ cpioParse fuel r.out = some (.ok (items, tail)) ∧
      cpioBuild items tail = r.out := by
  rw [ramdiskOpen] at hopen
  split at hopen
  · cases hopen
  · rename_i r hinflate
    split at hopen
    · cases hopen
    · cases hopen
    · rename_i items' tail' hparse
      split at hopen
      · cases hopen
      · rename_i hsame
        cases hopen
        exact ⟨r, hinflate, hparse, not_not.1 hsame⟩

theorem cmdReplace_eq_ok {c : GzipCodec} {fuel : Nat} {d name new out : Bytes} {p : Parts}
    (hsplit : split d = .ok p) (hcmd : cmdReplace c fuel d name new = some (.ok out)) :
    ∃ items tail, ramdiskOpen c fuel p.rd = some (.ok (items, tail)) ∧
      (∃ it ∈ items, it.name = name) ∧
      assemble d p.kernel (c.compress (cpioBuild (items.map (setData name new)) tail)) p.dt =
        .ok out := by
  rw [cmdReplace, hsplit] at hcmd
  dsimp only at hcmd
  split at hcmd
  · cases hcmd
  · cases hcmd
  · rename_i items tail hopen
    split at hcmd
    · cases hcmd
    · rename_i hhit
      simp only [ne_eq, not_forall, not_not, exists_prop] at hhit
      exact ⟨items, tail, hopen, hhit, Option.some.inj hcmd⟩

/-- `cpio_parse` as a function and as a relation. -/
theorem exists_cpioParse_iff {buf tail : Bytes} {items : List Item} :
    (∃ fuel, cpioParse fuel buf = some (.ok (items, tail))) ↔ Parses buf 0 items tail := by
  constructor
  · intro ⟨fuel, hparse⟩
    obtain ⟨rest, rfl, hparses⟩ := parses_of_cpioLoop hparse
    exact hparses
  · intro hparses
    exact hparses.cpioLoop []

theorem ramdiskReads_iff {c : GzipCodec} {d tail : Bytes} {items : List Item} {p : Parts}
    (hsplit : split d = .ok p) : RamdiskReads c d items tail ↔
      ∃ outs, Gunzips c p.rd outs ∧ Parses outs.flatten 0 items tail := by
  constructor
  · intro ⟨p', outs, fuel, hsplit', hall, hparse⟩
    rw [hsplit, Except.ok.injEq] at hsplit'
    subst hsplit'
    exact ⟨outs, hall, exists_cpioParse_iff.1 ⟨fuel, hparse⟩⟩
  · intro ⟨outs, hall, hparses⟩
    obtain ⟨fuel, hparse⟩ := exists_cpioParse_iff.2 hparses
    exact ⟨p, outs, fuel, hsplit, hall, hparse⟩

/-- A successful command: the first member held an archive with the named file, and the new image
holds one member with the archive whose data is set. -/
theorem cmdReplace_result {c : GzipCodec} (hc : c.Correct) {fuel : Nat} {d name new out : Bytes}
    {p : Parts} (hsplit : split d = .ok p) (hps : hdrFields ≤ p.hdr.ps)
    (hcmd : cmdReplace c fuel d name new = some (.ok out)) :
    ∃ first items tail, Archive items tail ∧ items.map Item.sized = items ∧
      cpioBuild items tail = first ∧ (∃ it ∈ items, it.name = name) ∧
      (∀ outs, Gunzips c p.rd outs → ∃ rest, outs = first :: rest) ∧
      ∀ items' tail', RamdiskReads c out items' tail' ↔
        Parses (cpioBuild (items.map (setData name new)) tail) 0 items' tail' := by
  obtain ⟨items, tail, hopen, hhit, hasm⟩ := cmdReplace_eq_ok hsplit hcmd
  obtain ⟨r, hinflate, hparse, hsame⟩ := ramdiskOpen_eq_ok hopen
  have hparses := exists_cpioParse_iff.1 ⟨fuel, hparse⟩
  obtain ⟨harch, hsized, -⟩ := rebuild_iff_archive.1 ⟨hparses, hsame⟩
  have hrd : p.rd ≠ [] := by
    intro hnil
    rw [hnil, hc.inflate_nil, Except.ok.injEq] at hinflate
    rw [← hinflate] at hparses
    obtain ⟨it, hmem, -⟩ := hhit
    have hnone := hparses.unique (.stop rfl)
    rw [hnone.1] at hmem
    cases hmem
  obtain ⟨hhdr, hpos⟩ := split_eq_ok hsplit
  have hpage : p.hdr.ps ≤ d.length := by
    have hlen := List.length_pos_iff.2 hrd
    rw [split_of_parseHdr hhdr hpos, Except.ok.injEq] at hsplit
    rw [← hsplit] at hlen
    simp only [length_slice, Hdr.offR] at hlen
    omega
  obtain ⟨-, -, fill, -, p', hsplit', -, hrd', -⟩ := split_assemble hhdr hpage hps hasm
  refine ⟨r.out, items, tail, harch, hsized, hsame, hhit, ?_, ?_⟩
  · intro outs hall
    exact hall.of_inflate hrd hinflate
  · intro items' tail'
    rw [ramdiskReads_iff hsplit', hrd']
    constructor
    · rintro ⟨outs, hall, hparses'⟩
      rw [(gunzips_compress_iff hc _).1 hall, List.flatten_singleton] at hparses'
      exact hparses'
    · intro hparses'
      refine ⟨_, (gunzips_compress_iff hc _).2 rfl, ?_⟩
      rwa [List.flatten_singleton]

/-! ### The replaced archive -/

theorem setData_name (name new : Bytes) (it : Item) : (setData name new it).name = it.name := by
  rw [setData]
  split <;> rfl

theorem Archive.setData {items : List Item} {tail name new : Bytes} (harch : Archive items tail)
    (hnew : new.length < 2 ^ 32) : Archive (items.map (setData name new)) tail := by
  refine ⟨?_, ?_⟩
  · intro it' hmem
    obtain ⟨it, hit, rfl⟩ := List.mem_map.1 hmem
    obtain ⟨hlen, hmagic, hdata, hname⟩ := harch.wellFormed it hit
    rw [BootImg.setData]
    split
    · exact ⟨hlen, hmagic, hnew, hname⟩
    · exact ⟨hlen, hmagic, hdata, hname⟩
  · rcases harch.ends with ⟨init, last, rfl, hlast, hinit⟩ | ⟨hnames, hno⟩
    · refine Or.inl ⟨init.map (BootImg.setData name new), BootImg.setData name new last, ?_, ?_, ?_⟩
      · rw [List.map_append, List.map_singleton]
      · rw [setData_name, hlast]
      · rw [List.forall_mem_map]
        intro it hit
        rw [setData_name]
        exact hinit it hit
    · refine Or.inr ⟨?_, hno⟩
      rw [List.forall_mem_map]
      intro it hit
      rw [setData_name]
      exact hnames it hit

/-- The builder writes the item with the new data and nothing else new. -/
theorem sized_setData {it : Item} (hit : it.WellFormed) (hsized : it.sized = it)
    {new : Bytes} (hnew : new.length < 2 ^ 32) (name : Bytes) :
    (setData name new it).sized = replaced name new it := by
  rw [setData, replaced]
  split
  · have hhdr : it.sizedHdr = it.hdr := congrArg Item.hdr hsized
    have hdigits : (fmt08X new.length).length = 8 := by
      rw [length_fmt08X, hexWidth_eq_eight_iff.2 hnew]
    have hnameField : it.hdr.slice 94 102 = fmt08X (it.name.length + 1) := by
      have hfull := slice_zero_length (fmt08X (it.name.length + 1))
      rw [length_fmt08X, hexWidth_eq_eight_iff.2 hit.nameSize] at hfull
      rw [← hhdr, Item.slice_sizedHdr_name hit.hdrLength, hfull]
    have hlen := hit.hdrLength
    have hkept : (it.hdr.setSlice 54 62 (fmt08X new.length)).slice 94 102 =
        fmt08X (it.name.length + 1) := by
      rw [slice_setSlice_after (by omega) (by omega) (by omega), hnameField]
    rw [Item.sized, Item.sizedHdr, Item.mk.injEq]
    refine ⟨?_, rfl, rfl⟩
    dsimp only
    rw [← hkept, setSlice_slice _ (by omega)]
  · exact hsized

theorem map_sized_setData {items : List Item} {tail new : Bytes} (harch : Archive items tail)
    (hsized : items.map Item.sized = items) (hnew : new.length < 2 ^ 32) (name : Bytes) :
    (items.map (setData name new)).map Item.sized = items.map (replaced name new) := by
  have hfix : ∀ it ∈ items, it.sized = it := by
    have hid : items.map Item.sized = items.map id := by rw [hsized, List.map_id]
    exact fun it hmem => List.map_inj_left.1 hid it hmem
  rw [List.map_map]
  apply List.map_congr_left
  intro it hmem
  exact sized_setData (harch.wellFormed it hmem) (hfix it hmem) hnew name

theorem Parses.length_hdr {buf tail : Bytes} {q : Int} {items : List Item}
    (hparses : Parses buf q items tail) : ∀ it ∈ items, it.hdr.length ≤ 110 := by
  induction hparses with
  | stop => exact fun it hmem => absurd hmem List.not_mem_nil
  | trailer hstep =>
      intro it hmem
      rw [List.mem_singleton.1 hmem]
      exact length_hdr_of_cpioStep hstep
  | next hstep _ _ ih => exact List.forall_mem_cons.2 ⟨length_hdr_of_cpioStep hstep, ih⟩

/-! ### When the replacement is exact -/

/-- The command changes nothing but the named file exactly when nothing but the first gzip member
holds data, and the new data fits its size field. -/
theorem preserved_iff_replaceKeeps {c : GzipCodec} (hc : c.Correct) {fuel : Nat}
    {d name new out : Bytes} {p : Parts} (hsplit : split d = .ok p)
    (hcmd : cmdReplace c fuel d name new = some (.ok out)) :
    hdrFields ≤ p.hdr.ps ∧ Preserved c d out name new ↔ ReplaceKeeps c p new := by
  constructor
  · intro ⟨hps, items₀, tail₀, hold, hnew⟩
    obtain ⟨first, items, tail, harch, hsized, hbuild, ⟨target, htarget, hname⟩, hfirst, hout⟩ :=
      cmdReplace_result hc hsplit hps hcmd
    obtain ⟨outs, hall, hparses⟩ := (ramdiskReads_iff hsplit).1 hold
    obtain ⟨rest, rfl⟩ := hfirst outs hall
    rw [hout] at hnew
    have hwhole : (first :: rest).flatten = cpioBuild items (tail ++ rest.flatten) := by
      rw [List.flatten_cons, ← hbuild, cpioBuild_eq, cpioBuild_eq, List.append_assoc]
    rw [hwhole] at hparses
    obtain ⟨more, hitems, hend⟩ := harch.parses_prefix hparses
    rw [hsized] at hitems
    have hsize : new.length < 2 ^ 32 := by
      by_contra hlarge
      have hmem : replaced name new target ∈ items₀.map (replaced name new) := by
        rw [hitems]
        exact List.mem_map_of_mem (List.mem_append_left _ htarget)
      have hle := hnew.length_hdr _ hmem
      have hlen := (harch.wellFormed target htarget).hdrLength
      have hwidth := eight_le_hexWidth new.length
      have hwidth' := mt hexWidth_eq_eight_iff.1 hlarge
      rw [replaced, if_pos hname, length_setSlice _ (by omega) (by omega), length_fmt08X] at hle
      omega
    obtain ⟨hsame, htail⟩ := hnew.unique (harch.setData hsize).parses
    rw [map_sized_setData harch hsized hsize, hitems] at hsame
    have hmore : more = [] := by
      have hlen := congrArg List.length hsame
      rw [List.length_map, List.length_map, List.length_append] at hlen
      exact List.eq_nil_of_length_eq_zero (by omega)
    have hnothing : rest.flatten = [] := by
      have htail' := hend hmore
      rw [htail] at htail'
      exact List.self_eq_append_right.1 htail'
    exact ⟨hps, hsize, first, rest, hall, hnothing⟩
  · intro ⟨hps, hsize, first', rest, hall, hnothing⟩
    obtain ⟨first, items, tail, harch, hsized, hbuild, -, hfirst, hout⟩ :=
      cmdReplace_result hc hsplit hps hcmd
    obtain ⟨rest', hcons⟩ := hfirst _ hall
    cases hcons
    refine ⟨hps, items, tail, ?_, ?_⟩
    · have hparses := harch.parses
      rw [hsized] at hparses
      refine (ramdiskReads_iff hsplit).2 ⟨_, hall, ?_⟩
      rwa [List.flatten_cons, hnothing, List.append_nil, ← hbuild]
    · rw [hout, ← map_sized_setData harch hsized hsize]
      exact (harch.setData hsize).parses

/-! ### A ramdisk of two members -/

set_option maxRecDepth 4096

/-- One file `a` and the trailer. -/
def smallItems (data : Bytes) : List Item :=
  let hdr (mode : Nat) :=
    cpioMagic ++ [0, mode, 0, 0, 1, 0, 0, 0, 0, 0, 0, 0, 0].flatMap (hexFixed 8)
  [⟨hdr 0o100644, [0x61], data⟩, ⟨hdr 0, trailerName, []⟩]

theorem archive_smallItems {data : Bytes} (hdata : data.length < 2 ^ 32) (tail : Bytes) :
    Archive (smallItems data) tail := by
  have hlen (mode : Nat) : (cpioMagic ++
      [0, mode, 0, 0, 1, 0, 0, 0, 0, 0, 0, 0, 0].flatMap (hexFixed 8)).length = 110 := by
    simp only [List.length_append, List.length_flatMap, length_hexFixed]
    rfl
  refine ⟨List.forall_mem_cons.2 ⟨?_, List.forall_mem_singleton.2 ?_⟩,
    Or.inl ⟨[_], _, rfl, rfl, ?_⟩⟩
  · exact ⟨hlen _, rfl, hdata, show 2 < 2 ^ 32 by decide⟩
  · exact ⟨hlen _, rfl, by decide, by decide⟩
  · rw [List.forall_mem_singleton]
    exact nofun

def smallCpio (data : Bytes) : Bytes := cpioBuild (smallItems data) []

theorem smallCpio_inj {x y : Bytes} (hx : x.length < 2 ^ 32) (hy : y.length < 2 ^ 32)
    (heq : smallCpio x = smallCpio y) : x = y := by
  have hparses := (archive_smallItems hx []).parses
  rw [← smallCpio, heq] at hparses
  have hitems := (hparses.unique (archive_smallItems hy []).parses).1
  have hdata := congrArg (fun items : List Item => items.map Item.data) hitems
  exact (List.cons.inj hdata).1

/-- `gzip` of `smallCpio` for the data `x`. -/
def gzOld : Bytes :=
  [31, 139, 8, 0, 0, 0, 0, 0, 2, 255, 51, 48, 55, 48, 55, 48, 52, 64, 2, 22, 134, 142, 38, 6, 216,
    129, 33, 1, 62, 46, 96, 4, 99, 36, 50, 84, 48, 48, 48, 24, 96, 216, 137, 7, 16, 171, 14, 29, 56,
    193, 24, 33, 65, 142, 158, 62, 174, 65, 138, 138, 138, 64, 171, 25, 0, 27, 133, 173, 190, 240,
    0, 0, 0]

/-- `gzip` of `smallCpio` for the data `yz`. -/
def gzNew : Bytes :=
  [31, 139, 8, 0, 0, 0, 0, 0, 2, 255, 51, 48, 55, 48, 55, 48, 52, 64, 2, 22, 134, 142, 38, 6, 216,
    129, 33, 26, 223, 200, 128, 56, 0, 87, 151, 200, 80, 89, 197, 192, 96, 128, 97, 39, 30, 64, 172,
    58, 116, 224, 4, 99, 132, 4, 57, 122, 250, 184, 6, 41, 42, 42, 50, 0, 1, 0, 228, 168, 227, 60,
    240, 0, 0, 0]

/-- `gzip` of the one byte `n`. -/
def gzTail : Bytes :=
  [31, 139, 8, 0, 0, 0, 0, 0, 2, 255, 203, 3, 0, 210, 163, 8, 120, 1, 0, 0, 0]

/-- A self-delimiting coding, for every string but the three above. -/
def packed : Bytes → Bytes
  | [] => [0]
  | b :: bs => 1 :: b :: packed bs

def unpacked : Bytes → Except Fault Inflated
  | [] => .error .zlibError
  | [t] => if t = 0 then .ok ⟨[], [], true⟩ else .error .zlibError
  | t :: b :: bs =>
      if t = 0 then .ok ⟨[], b :: bs, true⟩
      else (unpacked bs).map fun r => { r with out := b :: r.out }

/-- gzip on the three strings above. -/
def smallCodec : GzipCodec where
  compress x :=
    if x = smallCpio [0x78] then gzOld
    else if x = smallCpio [0x79, 0x7A] then gzNew
    else if x = [0x6E] then gzTail
    else packed x
  inflate rd :=
    if rd = [] then .ok ⟨[], [], false⟩
    else if rd.take gzOld.length = gzOld then .ok ⟨smallCpio [0x78], rd.drop gzOld.length, true⟩
    else if rd.take gzNew.length = gzNew then
      .ok ⟨smallCpio [0x79, 0x7A], rd.drop gzNew.length, true⟩
    else if rd.take gzTail.length = gzTail then .ok ⟨[0x6E], rd.drop gzTail.length, true⟩
    else unpacked rd

theorem unpacked_packed (x rest : Bytes) : unpacked (packed x ++ rest) = .ok ⟨x, rest, true⟩ := by
  induction x with
  | nil => cases rest <;> rfl
  | cons b bs ih =>
      rw [packed, List.cons_append, List.cons_append, unpacked, if_neg (by decide), ih]
      rfl

theorem take_append_ne (xs ys : Bytes) (i : Nat) (hne : xs[i]? ≠ ys[i]?) (hxs : i < xs.length)
    (hys : i < ys.length) (rest : Bytes) : (xs ++ rest).take ys.length ≠ ys := by
  intro heq
  have hget : ((xs ++ rest).take ys.length)[i]? = ys[i]? := by rw [heq]
  rw [List.getElem?_take, if_pos hys, List.getElem?_append_left hxs] at hget
  exact hne hget

theorem compress_old : smallCodec.compress (smallCpio [0x78]) = gzOld := by
  simp only [smallCodec, if_true]

theorem compress_new : smallCodec.compress (smallCpio [0x79, 0x7A]) = gzNew := by
  have hne : smallCpio [0x79, 0x7A] ≠ smallCpio [0x78] := by
    intro heq
    have hdata := smallCpio_inj (by decide) (by decide) heq
    cases hdata
  simp only [smallCodec, if_neg hne, if_true]

theorem compress_tail : smallCodec.compress [0x6E] = gzTail := by decide

theorem smallCodec_correct : smallCodec.Correct := by
  refine ⟨fun x rest => ?_, rfl⟩
  have hne {gz : Bytes} (hgz : gz ≠ []) : gz ++ rest ≠ [] := List.append_ne_nil_of_left_ne_nil hgz _
  by_cases hold : x = smallCpio [0x78]
  · rw [hold, compress_old]
    simp only [smallCodec, if_neg (hne (show gzOld ≠ [] by decide)), List.take_left, if_true,
      List.drop_left]
  by_cases hnew : x = smallCpio [0x79, 0x7A]
  · have hskip := take_append_ne gzNew gzOld 28 (by decide) (by decide) (by decide)
    rw [hnew, compress_new]
    simp only [smallCodec, if_neg (hne (show gzNew ≠ [] by decide)), if_neg (hskip rest),
      List.take_left, if_true, List.drop_left]
  by_cases htail : x = [0x6E]
  · have hskip := take_append_ne gzTail gzOld 10 (by decide) (by decide) (by decide)
    have hskip' := take_append_ne gzTail gzNew 10 (by decide) (by decide) (by decide)
    rw [htail, compress_tail]
    simp only [smallCodec, if_neg (hne (show gzTail ≠ [] by decide)), if_neg (hskip rest),
      if_neg (hskip' rest), List.take_left, if_true, List.drop_left]
  · have hfirst (gz : Bytes) (hgz : gz[0]? = some 31) : (packed x)[0]? ≠ gz[0]? := by
      rw [hgz]
      cases x <;> simp [packed]
    have hlen : 0 < (packed x).length := by cases x <;> simp [packed]
    have hskip (gz : Bytes) (hgz : gz[0]? = some 31) (hpos : 0 < gz.length) :=
      take_append_ne _ _ 0 (hfirst gz hgz) hlen hpos rest
    have hpacked : packed x ≠ [] := List.length_pos_iff.1 hlen
    simp only [smallCodec, if_neg hold, if_neg hnew, if_neg htail, if_neg (hne hpacked),
      if_neg (hskip gzOld rfl (by decide)), if_neg (hskip gzNew rfl (by decide)),
      if_neg (hskip gzTail rfl (by decide)), unpacked_packed]

/-- The command on an image whose ramdisk begins with the first string. What follows it is not
looked at. -/
theorem cmdReplace_gzOld {d : Bytes} {p : Parts} (rest : Bytes) (hsplit : split d = .ok p)
    (hrd : p.rd = gzOld ++ rest) :
    cmdReplace smallCodec 3 d [0x61] [0x79, 0x7A] = some (assemble d p.kernel gzNew p.dt) := by
  have hinflate := smallCodec_correct.inflate_compress (smallCpio [0x78]) rest
  rw [compress_old] at hinflate
  have hparse : cpioParse 3 (smallCpio [0x78]) =
      some (.ok ((smallItems [0x78]).map Item.sized, [])) := by decide
  have hsame : cpioBuild ((smallItems [0x78]).map Item.sized) [] = smallCpio [0x78] := by decide
  have hset : cpioBuild (((smallItems [0x78]).map Item.sized).map (setData [0x61] [0x79, 0x7A]))
      [] = smallCpio [0x79, 0x7A] := by decide
  have hopen : ramdiskOpen smallCodec 3 p.rd =
      some (.ok ((smallItems [0x78]).map Item.sized, [])) := by
    rw [ramdiskOpen, hrd, hinflate]
    dsimp only
    rw [hparse]
    dsimp only
    rw [if_neg (not_not.2 hsame)]
  have hhit : ¬ ∀ it ∈ (smallItems [0x78]).map Item.sized, it.name ≠ [0x61] := by
    intro hnone
    exact hnone _ List.mem_cons_self rfl
  rw [cmdReplace, hsplit]
  dsimp only
  rw [hopen]
  dsimp only
  rw [if_neg hhit, hset, compress_new]

theorem preserved_iff_replaceKeeps_oneMember :
    hdrFields ≤ 64 ∧
      Preserved smallCodec (smallImage [1] gzOld []) (smallImage [1] gzNew []) [0x61]
        [0x79, 0x7A] := by
  have hmembers := (gunzips_compress_iff smallCodec_correct (smallCpio [0x78])).2 rfl
  rw [compress_old] at hmembers
  have hsplit : split (smallImage [1] gzOld []) =
      .ok ⟨⟨1, 73, 0, 64, 1⟩, [1], gzOld, [3]⟩ := by decide
  have hasm : assemble (smallImage [1] gzOld []) [1] gzNew [3] =
      .ok (smallImage [1] gzNew []) := by decide
  have hcmd := cmdReplace_gzOld [] hsplit (List.append_nil gzOld).symm
  rw [hasm] at hcmd
  exact (preserved_iff_replaceKeeps smallCodec_correct hsplit hcmd).2
    ⟨by decide, by decide, _, [], hmembers, rfl⟩

/-- The second member of the ramdisk is lost, and no guard stops the command. -/
theorem cmdReplace_drops_member :
    smallCodec.Correct ∧
      cmdReplace smallCodec 3 (smallImage [1] (gzOld ++ gzTail) []) [0x61] [0x79, 0x7A] =
        some (.ok (smallImage [1] gzNew [])) ∧
      ¬ Preserved smallCodec (smallImage [1] (gzOld ++ gzTail) []) (smallImage [1] gzNew []) [0x61]
        [0x79, 0x7A] := by
  have hsplit : split (smallImage [1] (gzOld ++ gzTail) []) =
      .ok ⟨⟨1, 94, 0, 64, 1⟩, [1], gzOld ++ gzTail, [3]⟩ := by decide
  have hasm : assemble (smallImage [1] (gzOld ++ gzTail) []) [1] gzNew [3] =
      .ok (smallImage [1] gzNew []) := by decide
  have hcmd := cmdReplace_gzOld gzTail hsplit rfl
  rw [hasm] at hcmd
  refine ⟨smallCodec_correct, hcmd, ?_⟩
  intro ⟨items, tail, hold, hnew⟩
  have hsplit' : split (smallImage [1] gzNew []) =
      .ok ⟨⟨1, 74, 0, 64, 1⟩, [1], gzNew, [3]⟩ := by decide
  obtain ⟨outs, hall, hparses⟩ := (ramdiskReads_iff hsplit).1 hold
  obtain ⟨outs', hall', hparses'⟩ := (ramdiskReads_iff hsplit').1 hnew
  dsimp only at hall hall'
  rw [← compress_old, gunzips_compress_append_iff smallCodec_correct, ← compress_tail] at hall
  rw [← compress_new, gunzips_compress_iff smallCodec_correct] at hall'
  obtain ⟨rest, rfl, hrest⟩ := hall
  rw [gunzips_compress_iff smallCodec_correct] at hrest
  subst hrest hall'
  -- the tail of the original is the byte of the second member, that of the new image is empty
  have hread := (archive_smallItems (show [0x78].length < 2 ^ 32 by decide) [0x6E]).parses
  have hread' := (archive_smallItems (show [0x79, 0x7A].length < 2 ^ 32 by decide) []).parses
  have hwhole : [smallCpio [0x78], [0x6E]].flatten = cpioBuild (smallItems [0x78]) [0x6E] := by
    rw [smallCpio, cpioBuild_eq, cpioBuild_eq, List.append_nil, List.flatten_cons,
      List.flatten_singleton]
  rw [hwhole] at hparses
  rw [List.flatten_singleton] at hparses'
  have htail := (hparses.unique hread).2
  have htail' := (hparses'.unique hread').2
  rw [htail] at htail'
  cases htail'

end LineageA1000.BootImg
