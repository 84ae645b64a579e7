import LineageA1000.BootImg.CpioBlock

/-!
# Whole archives

Which item lists the builder and the parser agree on: items that the fields can describe, with
`TRAILER!!!` in last place only, or with none and then nothing behind them that looks like a header.
The parser gives such a list back, and an archive that survives the unchanged rebuild is one.
-/

namespace LineageA1000.BootImg

open Bytes

/-- Nothing at the start of the tail makes the parser read on. -/
def NoEntry (tail : Bytes) : Prop := ¬ (110 ≤ tail.length ∧ tail.slice 0 6 = cpioMagic)

structure Archive (items : List Item) (tail : Bytes) : Prop where
  wellFormed : ∀ it ∈ items, it.WellFormed
  ends : (∃ init last, items = init ++ [last] ∧ last.name = trailerName ∧
      ∀ it ∈ init, it.name ≠ trailerName) ∨
    ((∀ it ∈ items, it.name ≠ trailerName) ∧ NoEntry tail)

/-! ### The parser on blocks -/

theorem pyDrop_append (pre rest : Bytes) : (pre ++ rest).pyDrop pre.length = rest := by
  rw [pyDrop_natCast, List.drop_left]

theorem cpioStep_eq_none_iff (pre tail : Bytes) :
    cpioStep (pre ++ tail) pre.length = .ok none ↔ NoEntry tail := by
  have hslice : (pre ++ tail).pySlice pre.length (pre.length + 6) = tail.slice 0 6 := by
    have hcast := pySlice_natCast (pre ++ tail) pre.length (pre.length + 6)
    rw [Nat.cast_add, Nat.cast_ofNat] at hcast
    rw [hcast, slice_append_right _ _ le_rfl, Nat.sub_self, Nat.add_sub_cancel_left]
  have hlen : ((pre.length : Int) + 110 ≤ (pre ++ tail).length) ↔ 110 ≤ tail.length := by
    rw [List.length_append]
    omega
  rw [NoEntry]
  constructor
  · intro hstep ⟨hfull, hmagic⟩
    rw [cpioStep, if_neg (not_not.2 (hlen.2 hfull)), hslice, if_neg (not_not.2 hmagic)] at hstep
    obtain ⟨nsz, -, hstep⟩ := bind_eq_ok.1 hstep
    obtain ⟨fsz, -, hstep⟩ := bind_eq_ok.1 hstep
    cases hstep
  · intro hno
    by_cases hfull : 110 ≤ tail.length
    · rw [cpioStep, if_neg (not_not.2 (hlen.2 hfull)), hslice,
        if_pos (fun hmagic => hno ⟨hfull, hmagic⟩)]
    · rw [cpioStep, if_pos (mt hlen.1 hfull)]

theorem parses_nil_iff {buf tail : Bytes} {q : Int} :
    Parses buf q [] tail ↔ cpioStep buf q = .ok none ∧ tail = buf.pyDrop q := by
  constructor
  · rintro ⟨hstep⟩
    exact ⟨hstep, rfl⟩
  · rintro ⟨hstep, rfl⟩
    exact .stop hstep

/-- The parser on a block: it reads the block's item, and ends there exactly for a trailer. -/
theorem parses_block_iff {it : Item} (hit : it.WellFormed) {pre : Bytes} (hpre : 4 ∣ pre.length)
    (rest : Bytes) {items : List Item} {tail : Bytes} :
    Parses (pre ++ (it.block ++ rest)) pre.length items tail ↔
      if it.name = trailerName then items = [it.sized] ∧ tail = rest
      else ∃ items', items = it.sized :: items' ∧
        Parses (pre ++ (it.block ++ rest)) (pre ++ it.block).length items' tail := by
  have hread := cpioStep_block hit hpre rest
  have hdrop : (pre ++ (it.block ++ rest)).pyDrop (pre ++ it.block).length = rest := by
    rw [← List.append_assoc, pyDrop_append]
  constructor
  · intro hparses
    cases hparses with
    | stop hstep =>
        rw [hread] at hstep
        cases hstep
    | trailer hstep hname =>
        rw [hread] at hstep
        cases hstep
        have hname : it.name = trailerName := hname
        rw [if_pos hname]
        exact ⟨rfl, hdrop⟩
    | next hstep hname hrest =>
        rw [hread] at hstep
        cases hstep
        have hname : ¬ it.name = trailerName := hname
        rw [if_neg hname]
        exact ⟨_, rfl, hrest⟩
  · intro hread'
    split at hread'
    · rename_i hname
      obtain ⟨rfl, rfl⟩ := hread'
      have hend := Parses.trailer hread hname
      rwa [hdrop] at hend
    · rename_i hname
      obtain ⟨items', rfl, hrest⟩ := hread'
      exact .next hread hname hrest

theorem parses_blocks_iff {entries : List Item}
    (hentries : ∀ it ∈ entries, it.WellFormed ∧ it.name ≠ trailerName) (pre : Bytes)
    (hpre : 4 ∣ pre.length) (rest : Bytes) {items : List Item} {tail : Bytes} :
    Parses (pre ++ (blocks entries ++ rest)) pre.length items tail ↔
      ∃ items', items = entries.map Item.sized ++ items' ∧
        Parses (pre ++ (blocks entries ++ rest)) (pre ++ blocks entries).length items' tail := by
  induction entries generalizing pre items with
  | nil =>
      simp only [blocks, List.flatMap_nil, List.append_nil, List.nil_append, List.map_nil,
        exists_eq_left']
  | cons it entries ih =>
      obtain ⟨hit, hname⟩ := hentries it (List.mem_cons_self ..)
      have hnext : 4 ∣ (pre ++ it.block).length := by
        rw [List.length_append]
        exact Nat.dvd_add hpre it.dvd_length_block
      have hbuf : pre ++ (blocks (it :: entries) ++ rest) =
          pre ++ it.block ++ (blocks entries ++ rest) := by
        simp only [blocks, List.flatMap_cons, List.append_assoc]
      have hpos : pre ++ blocks (it :: entries) = pre ++ it.block ++ blocks entries := by
        simp only [blocks, List.flatMap_cons, List.append_assoc]
      have hstep := @parses_block_iff it hit pre hpre (blocks entries ++ rest) items tail
      rw [if_neg hname, ← List.append_assoc pre] at hstep
      rw [hbuf, hpos, hstep]
      constructor
      · rintro ⟨items', rfl, hrest⟩
        obtain ⟨items'', rfl, hrest'⟩ :=
          (ih (fun it' hmem => hentries it' (List.mem_cons_of_mem _ hmem)) _ hnext).1 hrest
        exact ⟨items'', rfl, hrest'⟩
      · rintro ⟨items'', rfl, hrest⟩
        exact ⟨_, rfl,
          (ih (fun it' hmem => hentries it' (List.mem_cons_of_mem _ hmem)) _ hnext).2
            ⟨items'', rfl, hrest⟩⟩

/-! ### Archives -/

theorem blocks_append (xs ys : List Item) : blocks (xs ++ ys) = blocks xs ++ blocks ys :=
  List.flatMap_append

/-- What the parser reads where an archive stands, with anything behind its tail: the archive's
items, and more only if they end without a trailer. -/
theorem Archive.parses_prefix {entries items : List Item} {tail more rest : Bytes}
    (harch : Archive entries tail)
    (hparses : Parses (cpioBuild entries (tail ++ more)) 0 items rest) :
    ∃ items', items = entries.map Item.sized ++ items' ∧ (items' = [] → rest = tail ++ more) := by
  rw [cpioBuild_eq] at hparses
  rcases harch.ends with ⟨init, last, rfl, hlast, hinit⟩ | ⟨hnames, -⟩
  · have hmem (it : Item) (hit : it ∈ init) : it.WellFormed ∧ it.name ≠ trailerName :=
      ⟨harch.wellFormed it (List.mem_append_left _ hit), hinit it hit⟩
    have hwf := harch.wellFormed last (List.mem_append_right _ (List.mem_singleton_self _))
    rw [blocks_append, List.append_assoc] at hparses
    obtain ⟨items', rfl, hrest⟩ := (parses_blocks_iff hmem [] (dvd_zero 4) _).1 hparses
    have hblock : blocks [last] = last.block := List.flatMap_singleton ..
    rw [List.nil_append, List.nil_append, hblock, parses_block_iff hwf (dvd_length_blocks init),
      if_pos hlast] at hrest
    obtain ⟨rfl, rfl⟩ := hrest
    exact ⟨[], by rw [List.map_append, List.map_singleton, List.append_nil], fun _ => rfl⟩
  · have hmem (it : Item) (hit : it ∈ entries) : it.WellFormed ∧ it.name ≠ trailerName :=
      ⟨harch.wellFormed it hit, hnames it hit⟩
    obtain ⟨items', rfl, hrest⟩ := (parses_blocks_iff hmem [] (dvd_zero 4) _).1 hparses
    refine ⟨items', rfl, ?_⟩
    rintro rfl
    rw [(parses_nil_iff.1 hrest).2, List.nil_append, List.nil_append, pyDrop_append]

/-- The parser reads an archive back, with the sizes the builder wrote. -/
theorem Archive.parses {entries : List Item} {tail : Bytes} (harch : Archive entries tail) :
    Parses (cpioBuild entries tail) 0 (entries.map Item.sized) tail := by
  rw [cpioBuild_eq]
  rcases harch.ends with ⟨init, last, rfl, hlast, hinit⟩ | ⟨hnames, hno⟩
  · have hmem (it : Item) (hit : it ∈ init) : it.WellFormed ∧ it.name ≠ trailerName :=
      ⟨harch.wellFormed it (List.mem_append_left _ hit), hinit it hit⟩
    have hwf := harch.wellFormed last (List.mem_append_right _ (List.mem_singleton_self _))
    have hblock : blocks [last] = last.block := List.flatMap_singleton ..
    rw [blocks_append, List.append_assoc, hblock]
    refine (parses_blocks_iff hmem [] (dvd_zero 4) _).2 ⟨[last.sized], ?_, ?_⟩
    · rw [List.map_append, List.map_singleton]
    · rw [List.nil_append, List.nil_append, parses_block_iff hwf (dvd_length_blocks init),
        if_pos hlast]
      exact ⟨rfl, rfl⟩
  · have hmem (it : Item) (hit : it ∈ entries) : it.WellFormed ∧ it.name ≠ trailerName :=
      ⟨harch.wellFormed it hit, hnames it hit⟩
    refine (parses_blocks_iff hmem [] (dvd_zero 4) _).2 ⟨[], (List.append_nil _).symm, ?_⟩
    rw [List.nil_append, List.nil_append, parses_nil_iff, cpioStep_eq_none_iff, pyDrop_append]
    exact ⟨hno, rfl⟩

/-- What was parsed where its own blocks stand is an archive with correct size fields. -/
theorem archive_of_parses {buf rest : Bytes} {q : Int} {items : List Item}
    (hparses : Parses buf q items rest) (pre : Bytes) (hpre : 4 ∣ pre.length) (hq : q = pre.length)
    (hbuf : buf = pre ++ (blocks items ++ rest)) :
    Archive items rest ∧ items.map Item.sized = items := by
  have hhead (pre' : Bytes) {it : Item} {items' : List Item} {rest' : Bytes} :
      pre' ++ (blocks (it :: items') ++ rest') =
        pre' ++ (it.block ++ (blocks items' ++ rest')) := by
    simp only [blocks, List.flatMap_cons, List.append_assoc]
  have hsized {it : Item} (h : it.sizedHdr = it.hdr) : it.sized = it := by
    rw [Item.sized, h]
  induction hparses generalizing pre with
  | stop hstep =>
      rw [hbuf, hq, blocks, List.flatMap_nil, List.nil_append, cpioStep_eq_none_iff] at hstep
      refine ⟨⟨fun it hmem => absurd hmem List.not_mem_nil, Or.inr ⟨fun it hmem => absurd hmem
        List.not_mem_nil, ?_⟩⟩, rfl⟩
      rw [hq] at hbuf ⊢
      exact hstep
  | @trailer q q' it hstep hname =>
      rw [hbuf, hq, hhead] at hstep
      obtain ⟨hwf, heq⟩ := wellFormed_of_cpioStep hstep
      refine ⟨⟨?_, Or.inl ⟨[], it, rfl, hname, fun it' hmem => absurd hmem List.not_mem_nil⟩⟩, ?_⟩
      · intro it' hmem
        rwa [List.mem_singleton.1 hmem]
      · rw [List.map_singleton, hsized heq]
  | @next q q' it items tail hstep hname _ ih =>
      have hstep' := hstep
      rw [hbuf, hq, hhead] at hstep'
      obtain ⟨hwf, heq⟩ := wellFormed_of_cpioStep hstep'
      rw [cpioStep_block hwf hpre, Except.ok.injEq, Option.some.injEq, Prod.mk.injEq] at hstep'
      have hnext : 4 ∣ (pre ++ it.block).length := by
        rw [List.length_append]
        exact Nat.dvd_add hpre it.dvd_length_block
      obtain ⟨harch, hitems⟩ := ih _ hnext hstep'.2.symm (by rw [hbuf, hhead, List.append_assoc])
      refine ⟨⟨List.forall_mem_cons.2 ⟨hwf, harch.wellFormed⟩, ?_⟩, ?_⟩
      · rcases harch.ends with ⟨init, last, rfl, hlast, hinit⟩ | ⟨hnames, hno⟩
        · exact Or.inl ⟨it :: init, last, rfl, hlast, List.forall_mem_cons.2 ⟨hname, hinit⟩⟩
        · exact Or.inr ⟨List.forall_mem_cons.2 ⟨hname, hnames⟩, hno⟩
      · rw [List.map_cons, hsized heq, hitems]

/-- The unchanged rebuild of `ramdisk_open` accepts exactly the archives with correct size
fields. -/
theorem rebuild_iff_archive {buf tail : Bytes} {items : List Item} :
    Parses buf 0 items tail ∧ cpioBuild items tail = buf ↔
      Archive items tail ∧ items.map Item.sized = items ∧ cpioBuild items tail = buf := by
  constructor
  · rintro ⟨hparses, rfl⟩
    obtain ⟨harch, hitems⟩ :=
      archive_of_parses hparses [] (dvd_zero 4) rfl (cpioBuild_eq items tail)
    exact ⟨harch, hitems, rfl⟩
  · rintro ⟨harch, hitems, rfl⟩
    have hparses := harch.parses
    rw [hitems] at hparses
    exact ⟨hparses, rfl⟩

end LineageA1000.BootImg
