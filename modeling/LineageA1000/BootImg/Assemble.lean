import LineageA1000.BootImg.Header

/-!
# Reassembling a boot image

`assemble` lays the header page, the new kernel, ramdisk and dt out by concatenation and writes two
of the header's sizes. `split` reads the result by the header alone, which still announces the old
second stage and the old dt size. The main theorem says for which inputs the two agree.
-/

namespace LineageA1000.BootImg

open Bytes

/-- `struct.pack('<I', n)`. -/
def packI (n : Nat) : Except Fault Bytes :=
  if n < 2 ^ 32 then .ok (leBytes 4 n) else .error .structError

def assemble (orig kernel rdGz dt : Bytes) : Except Fault Bytes := do
  let h ← parseHdr orig
  let ps := h.ps
  let hdr := orig.slice 0 ps
  let hdr := hdr.setSlice 8 12 (← packI kernel.length)
  let hdr := hdr.setSlice 16 20 (← packI rdGz.length)
  let out := hdr
  let out := out ++ (kernel ++ zeros ((← padTo kernel.length ps) - kernel.length))
  let out := out ++ (rdGz ++ zeros ((← padTo rdGz.length ps) - rdGz.length))
  let out := out ++ (dt ++ zeros ((← padTo dt.length ps) - dt.length))
  if out.length > orig.length then
    .error (.doesNotFit out.length orig.length)
  else
    return out ++ zeros (orig.length - out.length)

/-! ### What a successful call wrote -/

/-- A section and its zero padding up to the page. -/
def padded (x : Bytes) (ps : Nat) : Bytes := x ++ zeros (roundUp x.length ps - x.length)

/-- The header page with the new kernel and ramdisk sizes. -/
def hdrPage (orig : Bytes) (ps ks rs : Nat) : Bytes :=
  ((orig.slice 0 ps).setSlice 8 12 (leBytes 4 ks)).setSlice 16 20 (leBytes 4 rs)

/-- The image before the partition is filled with zeros. -/
def laidOut (orig kernel rdGz dt : Bytes) (ps : Nat) : Bytes :=
  hdrPage orig ps kernel.length rdGz.length ++ padded kernel ps ++ padded rdGz ps ++ padded dt ps

theorem length_padded {ps : Nat} (hps : 0 < ps) (x : Bytes) :
    (padded x ps).length = roundUp x.length ps := by
  have hle := le_roundUp hps x.length
  rw [padded, List.length_append, length_zeros]
  omega

/-- Everything a successful `assemble` does: all sections fit, and the image is the header page, the
padded kernel, the padded ramdisk, and the dt in the zeros that fill the partition. -/
theorem assemble_eq_ok {orig kernel rdGz dt out : Bytes} {h : Hdr} (hparse : parseHdr orig = .ok h)
    (hasm : assemble orig kernel rdGz dt = .ok out) :
    0 < h.ps ∧ kernel.length < 2 ^ 32 ∧ rdGz.length < 2 ^ 32 ∧ out.length = orig.length ∧
      ∃ fill, out = hdrPage orig h.ps kernel.length rdGz.length ++
        (padded kernel h.ps ++ (padded rdGz h.ps ++ (dt ++ zeros fill))) := by
  simp only [assemble, hparse, ok_bind, bind_eq_ok, packI, padTo, ite_eq_ok_of_error,
    ite_error_eq_ok, pure, Except.pure, Except.ok.injEq] at hasm
  obtain ⟨_, ⟨hk, rfl⟩, _, ⟨hr, rfl⟩, _, ⟨hps, rfl⟩, _, ⟨-, rfl⟩, _, ⟨-, rfl⟩, hroom, rfl⟩ := hasm
  refine ⟨Nat.pos_of_ne_zero hps, hk, hr, ?_, roundUp dt.length h.ps - dt.length +
    (orig.length - (laidOut orig kernel rdGz dt h.ps).length), ?_⟩
  · rw [List.length_append, length_zeros]
    omega
  · simp only [laidOut, hdrPage, padded, List.append_assoc, ← zeros_append_zeros]

/-! ### The header page -/

theorem length_hdrPage {orig : Bytes} {ps : Nat} (hps : hdrFields ≤ ps) (hlen : ps ≤ orig.length)
    (ks rs : Nat) : (hdrPage orig ps ks rs).length = ps := by
  rw [hdrFields] at hps
  have hpage : (orig.slice 0 ps).length = ps := by
    rw [length_slice]
    omega
  have hks : ((orig.slice 0 ps).setSlice 8 12 (leBytes 4 ks)).length = ps := by
    rw [length_setSlice _ (by omega) (by omega), length_leBytes]
    omega
  rw [hdrPage, length_setSlice _ (by omega) (by omega), length_leBytes]
  omega

theorem getElem?_hdrPage {orig : Bytes} {ps : Nat} (hps : hdrFields ≤ ps) (hlen : ps ≤ orig.length)
    (ks rs i : Nat) : (hdrPage orig ps ks rs)[i]? =
      if 8 ≤ i ∧ i < 12 then (leBytes 4 ks)[i - 8]?
      else if 16 ≤ i ∧ i < 20 then (leBytes 4 rs)[i - 16]?
      else if i < ps then orig[i]? else none := by
  rw [hdrFields] at hps
  have hpage : (orig.slice 0 ps).length = ps := by
    rw [length_slice]
    omega
  have hks : ((orig.slice 0 ps).setSlice 8 12 (leBytes 4 ks)).length = ps := by
    rw [length_setSlice _ (by omega) (by omega), length_leBytes]
    omega
  have hkept : (orig.slice 0 ps)[i]? = if i < ps then orig[i]? else none := by
    rw [getElem?_slice, Nat.zero_add]
  rw [hdrPage, getElem?_setSlice (by omega) (by rw [length_leBytes]),
    getElem?_setSlice (by omega) (by rw [length_leBytes]), hkept]
  split_ifs <;> first | rfl | omega

/-- The announced kernel and ramdisk sizes are the new ones, all other header words the old ones. -/
theorem hdrWord_hdrPage {orig : Bytes} {ps ks rs : Nat} (hps : hdrFields ≤ ps)
    (hlen : ps ≤ orig.length) (hks : ks < 2 ^ 32) (hrs : rs < 2 ^ 32) {off : Nat}
    (hoff : off + 4 ≤ ps) (hword : off = 8 ∨ off = 16 ∨ off + 4 ≤ 8 ∨ 20 ≤ off) (rest : Bytes) :
    hdrWord (hdrPage orig ps ks rs ++ rest) off =
      if off = 8 then ks else if off = 16 then rs else hdrWord orig off := by
  have hlenPage := length_hdrPage hps hlen ks rs
  rw [hdrWord, slice_append_left _ _ (by omega)]
  rcases hword with rfl | rfl | hother
  · rw [if_pos rfl]
    have hslice : (hdrPage orig ps ks rs).slice 8 12 = leBytes 4 ks := by
      apply List.ext_getElem?
      intro i
      rw [getElem?_slice, getElem?_hdrPage hps hlen]
      by_cases hi : 8 + i < 12
      · rw [if_pos hi, if_pos (by omega), Nat.add_sub_cancel_left]
      · rw [if_neg hi, List.getElem?_eq_none (by rw [length_leBytes]; omega)]
    rw [hslice, leNat_leBytes (by omega)]
  · rw [if_neg (by omega), if_pos rfl]
    have hslice : (hdrPage orig ps ks rs).slice 16 20 = leBytes 4 rs := by
      apply List.ext_getElem?
      intro i
      rw [getElem?_slice, getElem?_hdrPage hps hlen]
      by_cases hi : 16 + i < 20
      · rw [if_pos hi, if_neg (by omega), if_pos (by omega), Nat.add_sub_cancel_left]
      · rw [if_neg hi, List.getElem?_eq_none (by rw [length_leBytes]; omega)]
    rw [hslice, leNat_leBytes (by omega)]
  · rw [if_neg (by omega), if_neg (by omega), hdrWord]
    congr 1
    apply slice_congr
    intro i hi hi'
    rw [getElem?_hdrPage hps hlen, if_neg (by omega), if_neg (by omega), if_pos (by omega)]

/-- The header of the new image: only the kernel and ramdisk sizes are new. -/
theorem parseHdr_hdrPage {orig : Bytes} {h : Hdr} {ks rs : Nat} (hparse : parseHdr orig = .ok h)
    (hps : hdrFields ≤ h.ps) (hlen : h.ps ≤ orig.length) (hks : ks < 2 ^ 32) (hrs : rs < 2 ^ 32)
    (rest : Bytes) :
    parseHdr (hdrPage orig h.ps ks rs ++ rest) = .ok { h with ks := ks, rs := rs } := by
  have hlenPage := length_hdrPage hps hlen ks rs
  obtain ⟨hmagic, -, hwords⟩ := parseHdr_eq_ok_iff.1 hparse
  rw [hdrFields] at hps
  have hword {off : Nat} := @hdrWord_hdrPage orig h.ps ks rs hps hlen hks hrs off
  rw [parseHdr_eq_ok_iff, hword (by omega) (by omega), hword (by omega) (by omega),
    hword (by omega) (by omega), hword (by omega) (by omega), hword (by omega) (by omega)]
  refine ⟨?_, ?_, ?_⟩
  · rw [slice_append_left _ _ (by omega), ← hmagic]
    apply slice_congr
    intro i _ hi
    rw [getElem?_hdrPage hps hlen, if_neg (by omega), if_neg (by omega), if_pos (by omega)]
  · rw [List.length_append, hlenPage, hdrFields]
    omega
  · rw [hwords]
    rfl

/-! ### When the reassembly is exact -/

/-- The reassembly of `orig` with new sections is exact: same length, the same header but for the
sizes of the kernel and the ramdisk, and `split` reads the new sections and the old second stage. -/
structure Exact (h : Hdr) (orig kernel rdGz dt out : Bytes) : Prop where
  length : out.length = orig.length
  header : ∀ i < h.ps, ¬ (8 ≤ i ∧ i < 12) → ¬ (16 ≤ i ∧ i < 20) → out[i]? = orig[i]?
  sections : ∃ p, split out = .ok p ∧ p.kernel = kernel ∧ p.rd = rdGz ∧ p.dt = dt ∧
    p.hdr.second out = h.second orig

/-- The bytes of the image behind the new kernel and ramdisk. -/
def room (h : Hdr) (orig kernel rdGz : Bytes) : Nat :=
  orig.length - (h.ps + roundUp kernel.length h.ps + roundUp rdGz.length h.ps)

/-- The header fits its page, the dt is as long as the header says (or reaches the end of the image
where the header says more), and there is no second stage that is not all zeros. -/
structure AssembleKeeps (h : Hdr) (orig kernel rdGz dt : Bytes) : Prop where
  headerPage : hdrFields ≤ h.ps
  dtSize : dt.length = min h.dts (room h orig kernel rdGz - roundUp h.ss h.ps)
  noSecond : h.ss = 0 ∨
    h.ss ≤ room h orig kernel rdGz ∧ dt = zeros dt.length ∧ h.second orig = zeros h.ss

/-- What `split` reads from an assembled image, as slices of the dt and the zeros behind it. -/
theorem split_assemble {orig kernel rdGz dt out : Bytes} {h : Hdr} (hparse : parseHdr orig = .ok h)
    (hpage : h.ps ≤ orig.length) (hps : hdrFields ≤ h.ps)
    (hasm : assemble orig kernel rdGz dt = .ok out) :
    out.length = orig.length ∧
    (∀ i < h.ps, ¬ (8 ≤ i ∧ i < 12) → ¬ (16 ≤ i ∧ i < 20) → out[i]? = orig[i]?) ∧
    ∃ fill, dt.length + fill = room h orig kernel rdGz ∧
      ∃ p, split out = .ok p ∧ p.kernel = kernel ∧ p.rd = rdGz ∧
        p.dt = (dt ++ zeros fill).slice (roundUp h.ss h.ps) (roundUp h.ss h.ps + h.dts) ∧
        p.hdr.second out = (dt ++ zeros fill).slice 0 h.ss := by
  obtain ⟨hpos, hk, hr, hlen, fill, rfl⟩ := assemble_eq_ok hparse hasm
  have hlenPage := length_hdrPage hps hpage kernel.length rdGz.length
  have hlenK := length_padded hpos kernel
  have hlenR := length_padded hpos rdGz
  have hkPad := le_roundUp hpos kernel.length
  have hrPad := le_roundUp hpos rdGz.length
  refine ⟨hlen, ?_, fill, ?_, _, split_of_parseHdr (parseHdr_hdrPage hparse hps hpage hk hr _) hpos,
    ?_, ?_, ?_, ?_⟩
  · intro i hi hks hrs
    rw [List.getElem?_append_left (by omega), getElem?_hdrPage hps hpage, if_neg hks, if_neg hrs,
      if_pos hi]
  · rw [room, ← hlen]
    simp only [List.length_append, length_zeros, hlenPage, hlenK, hlenR]
    omega
  · rw [padded, List.append_assoc]
    exact slice_append_mid _ _ _ hlenPage.symm (by rw [hlenPage])
  · dsimp only [Hdr.offR]
    rw [← List.append_assoc (hdrPage ..), padded.eq_def rdGz, List.append_assoc rdGz]
    refine slice_append_mid _ _ _ ?_ ?_ <;> rw [List.length_append, hlenPage, hlenK]
  · dsimp only [Hdr.offD, Hdr.offS, Hdr.offR]
    rw [slice_append_right _ _ (by omega), slice_append_right _ _ (by omega),
      slice_append_right _ _ (by omega), hlenPage, hlenK, hlenR]
    congr 1 <;> omega
  · dsimp only [Hdr.second, Hdr.offS, Hdr.offR]
    rw [slice_append_right _ _ (by omega), slice_append_right _ _ (by omega),
      slice_append_right _ _ (by omega), hlenPage, hlenK, hlenR]
    congr 1 <;> omega

theorem length_second {h : Hdr} {orig : Bytes} (hfits : h.Fits orig) (hps : 0 < h.ps) :
    (h.second orig).length = h.ss := by
  have hss := le_roundUp hps h.ss
  simp only [Hdr.Fits, Hdr.offD] at hfits
  rw [Hdr.second, length_slice]
  omega

theorem exact_of_assembleKeeps {orig kernel rdGz dt out : Bytes} {h : Hdr}
    (hparse : parseHdr orig = .ok h) (hfits : h.Fits orig)
    (hasm : assemble orig kernel rdGz dt = .ok out) (hkeep : AssembleKeeps h orig kernel rdGz dt) :
    Exact h orig kernel rdGz dt out := by
  obtain ⟨hps, hsize, hnone⟩ := hkeep
  obtain ⟨hlen, hheader, fill, hfill, p, hsplit, hkernel, hrd, hdt, hsecond⟩ :=
    split_assemble hparse hfits.page hps hasm
  have hlenTail : (dt ++ zeros fill).length = room h orig kernel rdGz := by
    rw [List.length_append, length_zeros, hfill]
  refine ⟨hlen, hheader, p, hsplit, hkernel, hrd, ?_, ?_⟩
  · rw [hdt]
    rcases hnone with hzero | ⟨hle, hzeros, -⟩
    · rw [hzero, roundUp_zero_left, Nat.zero_add]
      rw [hzero, roundUp_zero_left, Nat.sub_zero, ← hlenTail] at hsize
      exact slice_zero_append hsize
    · rw [hzeros, zeros_append_zeros, slice_zeros]
      congr 1
      omega
  · rw [hsecond]
    rcases hnone with hzero | ⟨hle, hzeros, hold⟩
    · rw [Hdr.second, hzero, Nat.add_zero, slice_self, slice_self]
    · rw [hold, hzeros, zeros_append_zeros, slice_zeros]
      congr 1
      omega

theorem assembleKeeps_of_exact {orig kernel rdGz dt out : Bytes} {h : Hdr}
    (hparse : parseHdr orig = .ok h) (hfits : h.Fits orig) (hps : hdrFields ≤ h.ps)
    (hasm : assemble orig kernel rdGz dt = .ok out) (hexact : Exact h orig kernel rdGz dt out) :
    AssembleKeeps h orig kernel rdGz dt := by
  have hpos : 0 < h.ps := lt_of_lt_of_le (by decide) hps
  obtain ⟨-, -, fill, hfill, p, hsplit, -, -, hdt, hsecond⟩ :=
    split_assemble hparse hfits.page hps hasm
  obtain ⟨p', hsplit', -, -, hdt', hsecond'⟩ := hexact.sections
  obtain rfl : p = p' := by
    rw [hsplit, Except.ok.injEq] at hsplit'
    exact hsplit'
  have hlenTail : (dt ++ zeros fill).length = room h orig kernel rdGz := by
    rw [List.length_append, length_zeros, hfill]
  have hss := le_roundUp hpos h.ss
  rw [hdt] at hdt'
  rw [hsecond] at hsecond'
  refine ⟨hps, ?_, ?_⟩
  · have hlenDt := congrArg List.length hdt'
    rw [length_slice, hlenTail] at hlenDt
    omega
  · rcases Nat.eq_zero_or_pos h.ss with hzero | hspos
    · exact Or.inl hzero
    · -- the dt is read a second stage too late, so it repeats into the zeros behind it
      have hzeros := eq_zeros_of_slice_shift (by omega) hdt'
      have hlenSecond := congrArg List.length hsecond'
      rw [length_second hfits hpos, length_slice, hlenTail] at hlenSecond
      refine Or.inr ⟨by omega, hzeros, ?_⟩
      rw [← hsecond', hzeros, zeros_append_zeros, slice_zeros]
      congr 1
      omega

/-- `assemble` and `split` agree on an image whose header fits its page exactly when the dt keeps
its size and no second stage lies between the ramdisk and the dt. -/
theorem exact_iff_assembleKeeps {orig kernel rdGz dt out : Bytes} {h : Hdr}
    (hparse : parseHdr orig = .ok h) (hfits : h.Fits orig)
    (hasm : assemble orig kernel rdGz dt = .ok out) :
    hdrFields ≤ h.ps ∧ Exact h orig kernel rdGz dt out ↔ AssembleKeeps h orig kernel rdGz dt := by
  constructor
  · intro ⟨hps, hexact⟩
    exact assembleKeeps_of_exact hparse hfits hps hasm hexact
  · intro hkeep
    exact ⟨hkeep.headerPage, exact_of_assembleKeeps hparse hfits hasm hkeep⟩

/-- An image of pages of 64 bytes with a one-byte dt. -/
def smallImage (kernel rd second : Bytes) : Bytes :=
  androidMagic ++ leBytes 4 kernel.length ++ leBytes 4 0x8000 ++ leBytes 4 rd.length ++
    leBytes 4 0x1000000 ++ leBytes 4 second.length ++ leBytes 4 0xF00000 ++ leBytes 4 0x100 ++
    leBytes 4 64 ++ leBytes 4 1 ++ zeros 20 ++
    padded kernel 64 ++ padded rd 64 ++ padded second 64 ++ padded [3] 64

instance (h : Hdr) (d : Bytes) : Decidable (h.Fits d) := inferInstanceAs (Decidable (_ ≤ _))

theorem exact_iff_assembleKeeps_smallImage :
    hdrFields ≤ 64 ∧
      Exact ⟨1, 1, 0, 64, 1⟩ (smallImage [1] [2] []) [8, 9] [2] [3]
        (smallImage [8, 9] [2] []) :=
  (@exact_iff_assembleKeeps (smallImage [1] [2] []) [8, 9] [2] [3] (smallImage [8, 9] [2] [])
    ⟨1, 1, 0, 64, 1⟩ (by decide +kernel) (by decide +kernel) (by decide +kernel)).2
    ⟨by decide, by decide +kernel, Or.inl rfl⟩

/-- An image with a second stage, put together again from its own sections. -/
theorem assemble_drops_second :
    let h : Hdr := ⟨1, 1, 1, 64, 1⟩
    let orig := smallImage [1] [2] [7]
    let out := orig.slice 0 192 ++ padded [3] 64 ++ zeros 64
    parseHdr orig = .ok h ∧ h.Fits orig ∧ split orig = .ok ⟨h, [1], [2], [3]⟩ ∧
      assemble orig [1] [2] [3] = .ok out ∧ ¬ Exact h orig [1] [2] [3] out := by
  refine ⟨by decide +kernel, by decide +kernel, by decide +kernel, by decide +kernel, ?_⟩
  intro hexact
  obtain ⟨p, hsplit, -, -, hdt, -⟩ := hexact.sections
  have hread : split ((smallImage [1] [2] [7]).slice 0 192 ++ padded [3] 64 ++ zeros 64) =
      .ok ⟨⟨1, 1, 1, 64, 1⟩, [1], [2], [0]⟩ := by decide
  rw [hread, Except.ok.injEq] at hsplit
  subst hsplit
  cases hdt

/-! ### Replacing the kernel -/

/-- What `cmd_kernel` writes to its output file. -/
def cmdKernel (d new : Bytes) : Except Fault Bytes := do
  let p ← split d
  assemble d new p.rd p.dt

/-- On an image without a second stage, replacing the kernel keeps everything else. -/
theorem exact_cmdKernel {d new out : Bytes} {p : Parts} (hsplit : split d = .ok p)
    (hfits : p.hdr.Fits d) (hps : hdrFields ≤ p.hdr.ps) (hss : p.hdr.ss = 0)
    (hcmd : cmdKernel d new = .ok out) : Exact p.hdr d new p.rd p.dt out := by
  obtain ⟨hparse, hpos⟩ := split_eq_ok hsplit
  rw [cmdKernel, hsplit, ok_bind] at hcmd
  obtain ⟨-, -, fill, hfill, -⟩ := split_assemble hparse hfits.page hps hcmd
  have hdt : p.dt.length = p.hdr.dts := by
    rw [split_of_parseHdr hparse hpos, Except.ok.injEq] at hsplit
    have hlen := congrArg (fun q : Parts => q.dt.length) hsplit
    simp only [length_slice] at hlen
    rw [Hdr.Fits] at hfits
    omega
  refine exact_of_assembleKeeps hparse hfits hcmd ⟨hps, ?_, Or.inl hss⟩
  rw [hss, roundUp_zero_left]
  omega

end LineageA1000.BootImg
