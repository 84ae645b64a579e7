import LineageA1000.Lib.Run
import LineageA1000.Shim.Rotation

/-!
# The ledger of the recorded descriptors

The table of addresses keeps a `dup` of every descriptor it records. Here each `dup` is an item of
its own, with the number it was given and how often it has been closed: numbers are used again, and
only the newest `dup` with a number can be the one behind it. What carries the accounting is that a
number was closed before it was given out again.
-/

namespace LineageA1000.Shim

open LineageA1000.Run

/-- A `dup` made for the table. -/
structure Dup where
  fd : Int
  closes : Nat
  deriving DecidableEq, Repr

/-- The table and every `dup` ever made for it, the newest first. -/
structure Ledger where
  table : PhysMap
  dups : List Dup

/-- A call of `_sprdcolor_record`, and what `dup` answers in it. -/
structure Call where
  phys : Word
  fd : Int
  len : Word
  dupfd : Int
  deriving DecidableEq, Repr

/-- Closing a number: the newest `dup` it was given to. -/
def closeFd (fd : Int) : List Dup → List Dup
  | [] => []
  | d :: ds => if d.fd = fd then { d with closes := d.closes + 1 } :: ds else d :: closeFd fd ds

def Call.recorded (c : Call) : Bool := c.phys != 0 && decide (0 ≤ c.fd)

theorem Call.recorded_iff {c : Call} : c.recorded = true ↔ c.phys ≠ 0 ∧ 0 ≤ c.fd := by
  unfold Call.recorded
  rw [Bool.and_eq_true, bne_iff_ne, decide_eq_true_iff]

namespace Ledger

/-- The `dup`s once the entry to be filled has let go of its descriptor. -/
def released (s : Ledger) (i : Fin PHYSMAP) : List Dup :=
  let old := s.table.entries i
  if old.phys ≠ 0 ∧ 0 < old.fd then closeFd old.fd s.dups else s.dups

/-- `_sprdcolor_record`. -/
def record (s : Ledger) (c : Call) : Ledger :=
  if c.recorded then
    let (i, rr) := recordIndex c.phys s.table
    let dups := s.released i
    { table := ⟨Function.update s.table.entries i ⟨c.phys, c.dupfd, c.len⟩, rr⟩
      dups := if c.dupfd < 0 then dups else ⟨c.dupfd, 0⟩ :: dups }
  else s

def start : Ledger := ⟨⟨fun _ => ⟨0, 0, 0⟩, 0⟩, []⟩

/-- The entry holds the descriptor. -/
def Holds (s : Ledger) (i : Fin PHYSMAP) (fd : Int) : Prop :=
  (s.table.entries i).phys ≠ 0 ∧ (s.table.entries i).fd = fd

/-- Neither leaked nor lost. -/
structure Balanced (s : Ledger) : Prop where
  distinct : ∀ i j, (s.table.entries i).phys ≠ 0 →
    (s.table.entries i).phys = (s.table.entries j).phys → i = j
  accounted : ∀ d ∈ s.dups, (d.closes = 0 ∧ ∃! i, s.Holds i d.fd) ∨ d.closes = 1
  apart : s.dups.Pairwise fun a b => a.closes = 0 → b.closes = 0 → a.fd ≠ b.fd
  reaches : ∀ i fd, s.Holds i fd → 0 < fd → ∃ d ∈ s.dups, d.closes = 0 ∧ d.fd = fd
  capacity : (s.dups.filter fun d => d.closes = 0).length ≤ PHYSMAP

/-- `dup` fails, or answers with a positive number that is not open. -/
def Answered (s : Ledger) (c : Call) : Prop :=
  c.recorded → c.dupfd = -1 ∨
    0 < c.dupfd ∧ ∀ d ∈ s.released (recordIndex c.phys s.table).1, d.closes = 0 → d.fd ≠ c.dupfd

/-- What carries the accounting. -/
structure Sound (s : Ledger) : Prop where
  distinct : ∀ i j, (s.table.entries i).phys ≠ 0 →
    (s.table.entries i).phys = (s.table.entries j).phys → i = j
  fdDistinct : ∀ i j, (s.table.entries i).phys ≠ 0 ∧ 0 < (s.table.entries i).fd →
    (s.table.entries j).phys ≠ 0 ∧ 0 < (s.table.entries j).fd →
    (s.table.entries i).fd = (s.table.entries j).fd → i = j
  held : ∀ d ∈ s.dups, (d.closes = 0 ∧ 0 < d.fd ∧ ∃ i, s.Holds i d.fd) ∨ d.closes = 1
  reaches : ∀ i fd, s.Holds i fd → 0 < fd → ∃ d ∈ s.dups, d.closes = 0 ∧ d.fd = fd
  -- A number was closed before it was given out again.
  newest : s.dups.Pairwise fun a b => a.fd = b.fd → b.closes ≠ 0

/-! ### Closing a number -/

/-- The `dup` that is open behind a number is the one a close reaches. -/
theorem closeFd_open {dups : List Dup}
    (hnewest : dups.Pairwise fun a b => a.fd = b.fd → b.closes ≠ 0) {d : Dup} (hd : d ∈ dups)
    (hopen : d.closes = 0) :
    ∃ l r, dups = l ++ d :: r ∧ closeFd d.fd dups = l ++ ⟨d.fd, 1⟩ :: r := by
  obtain ⟨l, r, rfl⟩ := List.append_of_mem hd
  refine ⟨l, r, rfl, ?_⟩
  have hnewer : ∀ a ∈ l, a.fd ≠ d.fd := by
    intro a ha hsame
    have hpair := List.pairwise_append.1 hnewest
    exact hpair.2.2 a ha d List.mem_cons_self hsame hopen
  clear hnewest hd
  induction l with
  | nil => simp [closeFd, hopen]
  | cons a l ih =>
      obtain ⟨ha, hl⟩ := List.forall_mem_cons.1 hnewer
      rw [List.cons_append, closeFd, if_neg ha, ih hl]
      rfl

theorem newest_close {l r : List Dup} {d : Dup}
    (h : (l ++ d :: r).Pairwise fun a b => a.fd = b.fd → b.closes ≠ 0) :
    (l ++ ⟨d.fd, 1⟩ :: r).Pairwise fun a b => a.fd = b.fd → b.closes ≠ 0 := by
  obtain ⟨hl, hd, hcross⟩ := List.pairwise_append.1 h
  obtain ⟨hdr, hr⟩ := List.pairwise_cons.1 hd
  refine List.pairwise_append.2 ⟨hl, List.pairwise_cons.2 ⟨hdr, hr⟩, ?_⟩
  intro a ha b hb
  obtain hb | hb := List.mem_cons.1 hb
  · rw [hb]
    exact fun _ => Nat.one_ne_zero
  · exact hcross a ha b (List.mem_cons_of_mem d hb)

variable {s : Ledger}

/-- Once the entry has let go of its descriptor, the others hold what is open. -/
theorem Sound.released (hs : s.Sound) (i : Fin PHYSMAP) :
    (∀ d ∈ s.released i, (d.closes = 0 ∧ 0 < d.fd ∧ ∃ j ≠ i, s.Holds j d.fd) ∨ d.closes = 1) ∧
    (∀ j ≠ i, ∀ fd, s.Holds j fd → 0 < fd → ∃ d ∈ s.released i, d.closes = 0 ∧ d.fd = fd) ∧
    (s.released i).Pairwise fun a b => a.fd = b.fd → b.closes ≠ 0 := by
  unfold Ledger.released
  by_cases hold : (s.table.entries i).phys ≠ 0 ∧ 0 < (s.table.entries i).fd
  · obtain ⟨d₀, hd₀, hopen₀, hfd₀⟩ := hs.reaches i _ ⟨hold.1, rfl⟩ hold.2
    obtain ⟨l, r, hdups, hclose⟩ := closeFd_open hs.newest hd₀ hopen₀
    have hnewest := hs.newest
    rw [hdups] at hnewest
    -- No other open one has the number.
    have hother : ∀ d ∈ l ++ r, d.closes = 0 → d.fd ≠ d₀.fd := by
      intro d hd hopen hsame
      obtain ⟨-, hcons, hcross⟩ := List.pairwise_append.1 hnewest
      obtain hd | hd := List.mem_append.1 hd
      · exact hcross d hd d₀ List.mem_cons_self hsame hopen₀
      · exact (List.pairwise_cons.1 hcons).1 d hd hsame.symm hopen
    have hmem : ∀ d, d ∈ s.dups ↔ d = d₀ ∨ d ∈ l ++ r := by
      intro d
      rw [hdups]
      simp only [List.mem_append, List.mem_cons]
      tauto
    simp only [if_pos hold]
    rw [← hfd₀, hclose]
    refine ⟨?_, ?_, newest_close hnewest⟩
    · intro d hd
      obtain rfl | hd : d = ⟨d₀.fd, 1⟩ ∨ d ∈ l ++ r := by
        simp only [List.mem_append, List.mem_cons] at hd ⊢
        tauto
      · exact .inr rfl
      · obtain ⟨hopen, hpos, j, hj⟩ | hclosed := hs.held d ((hmem d).2 (.inr hd))
        · refine .inl ⟨hopen, hpos, j, ?_, hj⟩
          intro hji
          apply hother d hd hopen
          rw [hfd₀, ← hji]
          exact hj.2.symm
        · exact .inr hclosed
    · intro j hji fd hj hpos
      obtain ⟨d, hd, hopen, hfd⟩ := hs.reaches j fd hj hpos
      obtain rfl | hd := (hmem d).1 hd
      · have hsame : (s.table.entries j).fd = (s.table.entries i).fd := by
          rw [hj.2, ← hfd, hfd₀]
        exact absurd (hs.fdDistinct j i ⟨hj.1, hj.2 ▸ hpos⟩ hold hsame) hji
      · refine ⟨d, ?_, hopen, hfd⟩
        simp only [List.mem_append, List.mem_cons] at hd ⊢
        tauto
  · simp only [if_neg hold]
    refine ⟨?_, fun j _ => hs.reaches j, hs.newest⟩
    intro d hd
    obtain ⟨hopen, hpos, j, hj⟩ | hclosed := hs.held d hd
    · refine .inl ⟨hopen, hpos, j, ?_, hj⟩
      intro hji
      rw [hji] at hj
      exact hold ⟨hj.1, hj.2 ▸ hpos⟩
    · exact .inr hclosed

/-! ### Filling an entry -/

/-- The table with the entry filled, and the `dup`s with its own. -/
def filled (s : Ledger) (i : Fin PHYSMAP) (e : PhysEntry) (rr : Fin PHYSMAP) (ds : List Dup) :
    Ledger where
  table := ⟨Function.update s.table.entries i e, rr⟩
  dups := if e.fd < 0 then ds else ⟨e.fd, 0⟩ :: ds

section Filled

variable {i j rr : Fin PHYSMAP} {e : PhysEntry} {ds : List Dup} {fd : Int} {d : Dup}

theorem holds_filled_self : (s.filled i e rr ds).Holds i fd ↔ e.phys ≠ 0 ∧ e.fd = fd := by
  unfold Holds filled
  dsimp only
  rw [Function.update_self]

theorem holds_filled_of_ne (hji : j ≠ i) : (s.filled i e rr ds).Holds j fd ↔ s.Holds j fd := by
  unfold Holds filled
  dsimp only
  rw [Function.update_of_ne hji]

theorem mem_filled : d ∈ (s.filled i e rr ds).dups ↔ (0 ≤ e.fd ∧ d = ⟨e.fd, 0⟩) ∨ d ∈ ds := by
  unfold filled
  by_cases hfail : e.fd < 0
  · rw [if_pos hfail]
    exact (or_iff_right fun h => absurd h.1 (Int.not_le.2 hfail)).symm
  · rw [if_neg hfail, List.mem_cons, and_iff_right (Int.not_lt.1 hfail)]

end Filled

theorem record_eq {c : Call} (hc : c.recorded = true) :
    s.record c = s.filled (recordIndex c.phys s.table).1 ⟨c.phys, c.dupfd, c.len⟩
      (recordIndex c.phys s.table).2 (s.released (recordIndex c.phys s.table).1) := by
  unfold Ledger.record
  rw [if_pos hc]
  rfl

theorem record_ignored {c : Call} (hc : c.recorded ≠ true) : s.record c = s := if_neg hc

theorem Sound.record (hs : s.Sound) {c : Call} (hans : s.Answered c) : (s.record c).Sound := by
  by_cases hc : c.recorded = true
  case neg =>
    rw [record_ignored hc]
    exact hs
  have hphys : c.phys ≠ 0 := (Call.recorded_iff.1 hc).1
  have hown (j : Fin PHYSMAP) (hj : (s.table.entries j).phys = c.phys) :
      (recordIndex c.phys s.table).1 = j := recordIndex_spec hs.distinct hphys hj
  have hans := hans hc
  rw [record_eq hc]
  generalize recordIndex c.phys s.table = index at hown hans ⊢
  obtain ⟨i, rr⟩ := index
  dsimp only at hown hans ⊢
  obtain ⟨hheld, hreaches, hnewest⟩ := hs.released i
  generalize s.released i = ds at hheld hreaches hnewest hans
  have hfresh (hpos : 0 < c.dupfd) : ∀ d ∈ ds, d.closes = 0 → d.fd ≠ c.dupfd := by
    obtain hfail | hfresh := hans
    · omega
    · exact hfresh.2
  refine ⟨?_, ?_, ?_, ?_, ?_⟩
  · intro j k hj hjk
    exact distinct_update (fun e : PhysEntry => e.phys ≠ 0) (fun e => e.phys)
      (fun j k hj _ => hs.distinct j k hj) (fun j hji _ _ h => hji (hown j h).symm) j k hj
      (hjk ▸ hj) hjk
  · intro j k hj hk hjk
    refine distinct_update (fun e : PhysEntry => e.phys ≠ 0 ∧ 0 < e.fd) (fun e => e.fd)
      hs.fdDistinct ?_ j k hj hk hjk
    intro j hji hj hnew hsame
    obtain ⟨d, hd, hopen, hfd⟩ := hreaches j hji _ ⟨hj.1, rfl⟩ hj.2
    exact hfresh hnew.2 d hd hopen (hfd.trans hsame)
  · intro d hd
    obtain ⟨hfd, rfl⟩ | hd := mem_filled.1 hd
    · refine .inl ⟨rfl, ?_, i, holds_filled_self.2 ⟨hphys, rfl⟩⟩
      dsimp only at hfd ⊢
      omega
    · obtain ⟨hopen, hpos, j, hji, hj⟩ | hclosed := hheld d hd
      · exact .inl ⟨hopen, hpos, j, (holds_filled_of_ne hji).2 hj⟩
      · exact .inr hclosed
  · intro j fd hj hpos
    by_cases hji : j = i
    · subst hji
      obtain ⟨-, hfd⟩ := holds_filled_self.1 hj
      dsimp only at hfd
      exact ⟨⟨c.dupfd, 0⟩, mem_filled.2 (.inl ⟨by dsimp only; omega, rfl⟩), rfl, hfd⟩
    · obtain ⟨d, hd, hopen, hfd⟩ := hreaches j hji fd ((holds_filled_of_ne hji).1 hj) hpos
      exact ⟨d, mem_filled.2 (.inr hd), hopen, hfd⟩
  · unfold filled
    dsimp only
    split
    · exact hnewest
    · refine List.pairwise_cons.2 ⟨?_, hnewest⟩
      intro d hd hsame hopen
      exact hfresh (by omega) d hd hopen hsame.symm

theorem sound_start : start.Sound := by
  refine ⟨?_, ?_, ?_, ?_, List.Pairwise.nil⟩
  · intro i j hi
    exact absurd rfl hi
  · intro i j hi
    exact absurd rfl hi.1
  · intro d hd
    cases hd
  · intro i fd hi
    exact absurd rfl hi.1

/-- There are no more open `dup`s than entries to hold them. -/
theorem Sound.capacity (hs : s.Sound) :
    (s.dups.filter fun d => d.closes = 0).length ≤ PHYSMAP := by
  have hnodup : ((s.dups.filter fun d => d.closes = 0).map Dup.fd).Nodup := by
    refine List.pairwise_map.2 (List.pairwise_filter.2 (hs.newest.imp ?_))
    intro a b h _ hopen hsame
    exact h hsame (of_decide_eq_true hopen)
  have hsubset : (s.dups.filter fun d => d.closes = 0).map Dup.fd ⊆
      (List.finRange PHYSMAP).map fun i => (s.table.entries i).fd := by
    intro fd hfd
    obtain ⟨d, hd, rfl⟩ := List.mem_map.1 hfd
    obtain ⟨hd, hopen⟩ := List.mem_filter.1 hd
    obtain ⟨-, -, i, hi⟩ | hclosed := hs.held d hd
    · exact List.mem_map.2 ⟨i, List.mem_finRange i, hi.2⟩
    · have hzero : d.closes = 0 := of_decide_eq_true hopen
      omega
  have hle := (hnodup.subperm hsubset).length_le
  simpa using hle

theorem Sound.balanced (hs : s.Sound) : s.Balanced := by
  refine ⟨hs.distinct, ?_, ?_, hs.reaches, hs.capacity⟩
  · intro d hd
    obtain ⟨hopen, hpos, i, hi⟩ | hclosed := hs.held d hd
    · refine .inl ⟨hopen, i, hi, ?_⟩
      intro j hj
      exact hs.fdDistinct j i ⟨hj.1, hj.2 ▸ hpos⟩ ⟨hi.1, hi.2 ▸ hpos⟩ (hj.2.trans hi.2.symm)
    · exact .inr hclosed
  · apply hs.newest.imp
    intro a b h _ hopen hsame
    exact h hsame hopen

/-! ### Looking an address up -/

/-- The call whose address was recorded last is found with its descriptor and length. -/
def Latest (s : Ledger) (last : Option Call) : Prop :=
  ∀ c, last = some c → ∃ i, findPhys c.phys s.table = some i ∧
    s.table.entries i = ⟨c.phys, c.dupfd, c.len⟩

theorem Sound.latest_record (hs : s.Sound) {c : Call} (hc : c.recorded = true) :
    (s.record c).Latest (some c) := by
  intro c' hc'
  obtain rfl := Option.some.inj hc'
  have hphys : c.phys ≠ 0 := (Call.recorded_iff.1 hc).1
  have hown (j : Fin PHYSMAP) (hj : (s.table.entries j).phys = c.phys) :
      (recordIndex c.phys s.table).1 = j := recordIndex_spec hs.distinct hphys hj
  rw [record_eq hc]
  generalize recordIndex c.phys s.table = index at hown ⊢
  obtain ⟨i, rr⟩ := index
  unfold filled
  dsimp only at hown ⊢
  have hentry : Function.update s.table.entries i ⟨c.phys, c.dupfd, c.len⟩ i =
      ⟨c.phys, c.dupfd, c.len⟩ := Function.update_self ..
  cases hfound : findPhys c.phys
      ⟨Function.update s.table.entries i ⟨c.phys, c.dupfd, c.len⟩, rr⟩ with
  | none =>
      have hother := of_decide_eq_false (findIndex_none hfound i)
      exact absurd (congrArg PhysEntry.phys hentry) hother
  | some j =>
      have hj := of_decide_eq_true (findIndex_some hfound)
      dsimp only at hj
      by_cases hji : j = i
      · rw [hji]
        exact ⟨i, rfl, hentry⟩
      · rw [Function.update_of_ne hji] at hj
        exact absurd (hown j hj).symm hji

def lastRecorded (calls : List Call) : Option Call := (calls.filter Call.recorded).getLast?

theorem latest_run {last : Option Call} {calls : List Call} (hs : s.Sound) (hlast : s.Latest last)
    (hans : EachStep Ledger.record Answered s calls) :
    (final Ledger.record s calls).Latest ((lastRecorded calls).or last) := by
  unfold lastRecorded
  induction calls generalizing s last with
  | nil => exact hlast
  | cons c calls ih =>
      have hnext := hs.record hans.1
      rw [final_cons]
      by_cases hc : c.recorded = true
      · rw [List.filter_cons_of_pos hc, List.getLast?_cons]
        have hgo := ih hnext (hs.latest_record hc) hans.2
        rw [Option.or_some] at hgo
        exact hgo
      · rw [List.filter_cons_of_neg hc]
        refine ih hnext ?_ hans.2
        rw [record_ignored hc]
        exact hlast

/-- For every run of calls: in every state the table neither leaks nor loses a descriptor, and the
address recorded last is found. -/
theorem record_run (calls : List Call) (hans : EachStep Ledger.record Answered start calls) :
    Always Ledger.record Balanced start calls ∧
      (final Ledger.record start calls).Latest (lastRecorded calls) := by
  have hsound : Always Ledger.record Sound start calls :=
    always_of_eachStep (fun s c hs hc => hs.record hc) sound_start hans
  refine ⟨hsound.mono fun s hs => hs.balanced, ?_⟩
  have hnone : start.Latest none := fun c hc => by cases hc
  have hlast := latest_run sound_start hnone hans
  rw [Option.or_none] at hlast
  exact hlast

instance (s : Ledger) (c : Call) : Decidable (s.Answered c) :=
  inferInstanceAs (Decidable (c.recorded = true → c.dupfd = -1 ∨ 0 < c.dupfd ∧
    ∀ d ∈ s.released (recordIndex c.phys s.table).1, d.closes = 0 → d.fd ≠ c.dupfd))

/-- Seventeen addresses: the last takes the place of the first, and is given its number. -/
def seventeen : List Call :=
  (List.range 17).map fun k => ⟨BitVec.ofNat 32 (4096 * (k + 1)), 9, 4096, 10 + k % 16⟩

theorem record_run_seventeen :
    EachStep Ledger.record Answered start seventeen ∧
      ∃ i, findPhys 69632 (final Ledger.record start seventeen).table = some i := by
  have hans : EachStep Ledger.record Answered start seventeen := by decide
  obtain ⟨-, hlast⟩ := record_run seventeen hans
  obtain ⟨i, hi, -⟩ := hlast ⟨69632, 9, 4096, 10⟩ (by decide)
  exact ⟨hans, i, hi⟩

/-! ### The descriptors of the process behind the ledger -/

theorem dup_opens (files : Files) (fd : Int) :
    (files.dup fd).1 < 0 ∨ (files.dup fd).2.lookup (files.dup fd).1 ≠ none := by
  unfold Files.dup
  cases files.lookup fd with
  | none => exact .inl (show (-1 : Int) < 0 by decide)
  | some x =>
      refine .inr ?_
      dsimp only
      rw [Files.lookup_install, if_pos rfl]
      exact Option.some_ne_none _

theorem dup_keeps {files : Files} (fd : Int) {n : Int} (h : files.lookup n ≠ none) :
    (files.dup fd).2.lookup n ≠ none := by
  unfold Files.dup
  cases files.lookup fd with
  | none => exact h
  | some x =>
      dsimp only
      rw [Files.lookup_install]
      split
      · exact Option.some_ne_none _
      · exact h

/-- The descriptors of the process once the entry has let go of its own. -/
def releasedFiles (p : Process) (i : Fin PHYSMAP) : Files :=
  let old := p.physMap.entries i
  if old.phys ≠ 0 ∧ 0 < old.fd then p.files.close old.fd else p.files

/-- What `dup` answers in a call. -/
def dupAnswer (p : Process) (phys : Word) (fd : Int) : Int :=
  ((releasedFiles p (recordIndex phys p.physMap).1).dup fd).1

/-- Every open `dup` is open in the process, and descriptor zero is. -/
structure Backed (p : Process) (s : Ledger) : Prop where
  table : p.physMap = s.table
  sound : s.Sound
  backed : ∀ d ∈ s.dups, d.closes = 0 → p.files.lookup d.fd ≠ none
  stdin : p.files.lookup 0 ≠ none

variable {p : Process}

theorem Backed.released (h : Backed p s) (i : Fin PHYSMAP) :
    (∀ d ∈ s.released i, d.closes = 0 → (releasedFiles p i).lookup d.fd ≠ none) ∧
      (releasedFiles p i).lookup 0 ≠ none := by
  obtain ⟨hheld, -, -⟩ := h.sound.released i
  have hkeeps (fd : Int) (hfd : ∀ hold : (s.table.entries i).phys ≠ 0 ∧
      0 < (s.table.entries i).fd, fd ≠ (s.table.entries i).fd) :
      (releasedFiles p i).lookup fd = p.files.lookup fd := by
    unfold releasedFiles
    rw [h.table]
    dsimp only
    split
    · rename_i hold
      rw [Files.lookup_close, if_neg (hfd hold)]
    · rfl
  constructor
  · intro d hd hopen
    obtain ⟨-, hpos, j, hji, hj⟩ | hclosed := hheld d hd
    · obtain ⟨d', hd', hopen', hsame⟩ := h.sound.reaches j d.fd hj hpos
      rw [hkeeps d.fd, ← hsame]
      · exact h.backed d' hd' hopen'
      · intro hold heq
        exact hji (h.sound.fdDistinct j i ⟨hj.1, hj.2 ▸ hpos⟩ hold (hj.2.trans heq))
    · omega
  · rw [hkeeps 0]
    · exact h.stdin
    · intro hold
      omega

/-- The calls of the process are calls of the ledger, and the kernel answers them as it should. -/
theorem Backed.record (h : Backed p s) (phys : Word) (fd : Int) (len : Word) :
    s.Answered ⟨phys, fd, len, dupAnswer p phys fd⟩ ∧
      Backed (Shim.record phys fd len p) (s.record ⟨phys, fd, len, dupAnswer p phys fd⟩) := by
  have hans : s.Answered ⟨phys, fd, len, dupAnswer p phys fd⟩ := by
    intro _
    unfold dupAnswer
    rw [h.table]
    obtain ⟨hopen, hzero⟩ := h.released (recordIndex phys s.table).1
    generalize releasedFiles p (recordIndex phys s.table).1 = files at hopen hzero
    unfold Files.dup
    have hfree := Files.lookup_lowestFree files
    cases files.lookup fd with
    | none => exact .inl rfl
    | some x =>
        refine .inr ⟨?_, ?_⟩
        · by_contra hle
          have heq : (files.lowestFree : Int) = 0 := by
            dsimp only at hle
            omega
          rw [heq] at hfree
          exact hzero hfree
        · intro d hd hclosed hsame
          dsimp only at hsame
          rw [← hsame] at hfree
          exact hopen d hd hclosed hfree
  refine ⟨hans, ?_⟩
  have hsound := h.sound.record hans
  by_cases hskip : phys = 0 ∨ fd < 0
  · have hc : Call.recorded ⟨phys, fd, len, dupAnswer p phys fd⟩ ≠ true := by
      rw [ne_eq, Call.recorded_iff]
      exact fun hc => hskip.elim hc.1 (fun hneg => absurd hc.2 (Int.not_le.2 hneg))
    rw [record_ignored hc, Shim.record, if_pos hskip]
    exact h
  · have hc : Call.recorded ⟨phys, fd, len, dupAnswer p phys fd⟩ = true := by
      obtain ⟨hphys, hfd⟩ := not_or.1 hskip
      exact Call.recorded_iff.2 ⟨hphys, Int.not_lt.1 hfd⟩
    have hfiles : (Shim.record phys fd len p).files =
        ((releasedFiles p (recordIndex phys p.physMap).1).dup fd).2 := by
      rw [Shim.record, if_neg hskip]
      rfl
    have htable : (Shim.record phys fd len p).physMap =
        (s.record ⟨phys, fd, len, dupAnswer p phys fd⟩).table := by
      rw [record_eq hc, filled, Shim.record, if_neg hskip, ← h.table]
      rfl
    obtain ⟨hopen, hzero⟩ := h.released (recordIndex phys s.table).1
    refine ⟨htable, hsound, ?_, ?_⟩
    · rw [hfiles, record_eq hc, h.table, dupAnswer, h.table]
      dsimp only
      generalize releasedFiles p (recordIndex phys s.table).1 = files at hopen hzero
      intro d hd hclosed
      obtain ⟨hfd, rfl⟩ | hd := mem_filled.1 hd
      · exact (dup_opens files fd).resolve_left (Int.not_lt.2 hfd)
      · exact dup_keeps fd (hopen d hd hclosed)
    · rw [hfiles, h.table]
      exact dup_keeps fd hzero

end Ledger

end LineageA1000.Shim
