import LineageA1000.Fm.Scan
import Mathlib.Data.List.Sort

/-!
# The station list of an FM scan

`FMR_scan` as one loop over the driver's answers, from the same pieces as the machine of the scan
and its stops. Each round makes one search and adds at most one station, so the loop ends; what it
adds lies above the station before it, so the list is clean whatever the driver answers. A driver
that goes up from station to station has all of them listed.
-/

namespace LineageA1000.Fm

/-! ### The loop -/

/-- What a scan meets: the driver's answer to its `i`-th search, whether the flag is set when the
scan looks at it after `i` searches, and whether it is set when the scan returns. -/
structure Air where
  answer : Nat → SearchArg → Option Int
  stop : Nat → Bool
  stopped : Bool

/-- The search that a round makes. -/
def nextSearch (l : Locals) : SearchArg := seekArg (l.cur * 10) true

/-- Where the scan goes from an answer. -/
def afterSearch (l : Locals) (answer : Option Int) : ScanPc :=
  let r := seekResult (l.cur * 10) answer
  if r.1 ≠ 0 then .finish l else found l (r.2.tdiv 10)

/-- The loop of `FMR_scan`, with the searches made so far; `none` where the fuel does not suffice.
-/
def scanLoop (air : Air) : Nat → Locals → List SearchArg → Option (Locals × List SearchArg)
  | 0, _, _ => none
  | fuel + 1, l, searches =>
      if ¬ l.cnt < l.max then some (l, searches)
      else if air.stop searches.length then some (l, searches)
      else
        match afterSearch l (air.answer searches.length (nextSearch l)) with
        | .head l' => scanLoop air fuel l' (searches ++ [nextSearch l])
        | .finish l' => some (l', searches ++ [nextSearch l])
        | _ => none

/-- The variables with which `FMR_scan` enters its loop. -/
def scanStart (maxScanNum num : Int) : Locals :=
  ⟨if num > maxScanNum then maxScanNum else num, 0, SC_BAND_LOW, -1, []⟩

/-- What `FMR_scan` returns and leaves in `*num` and `tbl`, and the searches it made. -/
structure Scanned where
  ret : Int
  num : Int
  tbl : List (BitVec 16)
  searches : List SearchArg
  deriving DecidableEq

def fmrScan (K : FmrConst) (fd maxScanNum num : Int) (air : Air) (fuel : Nat) : Option Scanned :=
  if fd < 0 then some ⟨-K.errInvalidFd, num, [], []⟩
  else
    (scanLoop air fuel (scanStart maxScanNum num) []).map fun r =>
      ⟨if air.stopped then -1 else 0, r.1.cnt, r.1.tbl, r.2⟩

/-- The most entries a scan may write. -/
def room (maxScanNum num : Int) : Nat := (min num maxScanNum).toNat

theorem scanStart_max (maxScanNum num : Int) :
    (scanStart maxScanNum num).max = min num maxScanNum := by
  show (if num > maxScanNum then maxScanNum else num) = _
  split <;> omega

/-! ### One round -/

/-- A station list: in the band and going up. -/
structure Clean (tbl : List (BitVec 16)) : Prop where
  band : ∀ f ∈ tbl, SC_BAND_LOW ≤ f.toNat ∧ (f.toNat : Int) ≤ SC_BAND_HIGH
  up : tbl.Pairwise fun f g => f.toNat < g.toNat

/-- The variables between two rounds. -/
structure Tidy (l : Locals) : Prop where
  clean : Clean l.tbl
  cnt : l.cnt = l.tbl.length
  prev : ∀ f ∈ l.tbl, (f.toNat : Int) ≤ l.prev
  low : l.prev = -1 ∨ SC_BAND_LOW ≤ l.prev

theorem tidy_scanStart (maxScanNum num : Int) : Tidy (scanStart maxScanNum num) where
  clean := ⟨nofun, List.Pairwise.nil⟩
  cnt := rfl
  prev := nofun
  low := .inl rfl

theorem toNat_ofInt_band {freq : Int} (hlow : SC_BAND_LOW ≤ freq) (hhigh : freq ≤ SC_BAND_HIGH) :
    ((BitVec.ofInt 16 freq).toNat : Int) = freq := by
  rw [BitVec.toNat_ofInt]
  have hlow' : (875 : Int) ≤ freq := hlow
  have hhigh' : freq ≤ (1080 : Int) := hhigh
  omega

/-- The variables after a station has been added. -/
def Locals.add (l : Locals) (freq : Int) : Locals :=
  { l with
    tbl := l.tbl ++ [BitVec.ofInt 16 freq]
    cnt := l.cnt + 1
    prev := freq
    cur := freq + SC_BAND_STEP }

theorem found_eq (l : Locals) (freq : Int) :
    found l freq =
      if (l.prev ≥ 0 ∧ freq ≤ l.prev) ∨ (freq ≤ SC_BAND_LOW ∧ l.cnt > 0) then .finish l
      else if freq + SC_BAND_STEP > SC_BAND_HIGH then .finish (l.add freq)
      else .head (l.add freq) := by
  unfold found
  by_cases hback : l.prev ≥ 0 ∧ freq ≤ l.prev
  · rw [if_pos hback, if_pos (.inl hback)]
  rw [if_neg hback]
  by_cases hwrap : freq ≤ SC_BAND_LOW ∧ l.cnt > 0
  · rw [if_pos hwrap, if_pos (.inr hwrap)]
  rw [if_neg hwrap, if_neg (not_or.2 ⟨hback, hwrap⟩)]
  rfl

/-- The answer adds nothing to the list: none, out of the band, or no higher than what is there. -/
def AddsNothing (l : Locals) (answer : Option Int) : Prop :=
  ∀ freq ∈ answer, freq < SC_BAND_LOW ∨ SC_BAND_HIGH < freq ∨ freq ≤ l.prev ∨
    (freq ≤ SC_BAND_LOW ∧ l.cnt > 0)

theorem afterSearch_cases {l : Locals} (hlow : l.prev = -1 ∨ SC_BAND_LOW ≤ l.prev)
    (answer : Option Int) :
    (AddsNothing l answer ∧ afterSearch l answer = .finish l) ∨
      ∃ freq, answer = some freq ∧ SC_BAND_LOW ≤ freq ∧ freq ≤ SC_BAND_HIGH ∧ l.prev < freq ∧
        afterSearch l answer =
          if freq = SC_BAND_HIGH then .finish (l.add freq) else .head (l.add freq) := by
  cases answer with
  | none => exact .inl ⟨nofun, rfl⟩
  | some freq =>
      rw [afterSearch, seekResult]
      split
      · rename_i hout
        refine .inl ⟨fun f hf => ?_, rfl⟩
        cases hf
        rcases hout with h | h
        · exact .inl h
        · exact .inr (.inl h)
      rename_i hin
      rw [not_or, not_lt, not_lt] at hin
      have htenth : (freq * 10).tdiv 10 = freq := Int.mul_tdiv_cancel _ (by decide)
      dsimp only
      rw [if_neg (not_not.2 rfl), htenth, found_eq]
      split
      · rename_i hback
        refine .inl ⟨fun f hf => ?_, rfl⟩
        cases hf
        rcases hback with h | h
        · exact .inr (.inr (.inl h.2))
        · exact .inr (.inr (.inr h))
      · rename_i hnew
        refine .inr ⟨freq, rfl, hin.1, hin.2, ?_, ?_⟩
        · rcases hlow with hfirst | hprev
          · rw [hfirst]
            exact lt_of_lt_of_le (by decide) hin.1
          · by_contra hle
            exact hnew (.inl ⟨le_trans (by decide) hprev, not_lt.1 hle⟩)
        · have hedge : freq + SC_BAND_STEP > SC_BAND_HIGH ↔ freq = SC_BAND_HIGH := by
            have hhigh : freq ≤ (1080 : Int) := hin.2
            show freq + (1 : Int) > 1080 ↔ freq = 1080
            omega
          simp only [hedge]

theorem tidy_add {l : Locals} (hl : Tidy l) {freq : Int} (hlow : SC_BAND_LOW ≤ freq)
    (hhigh : freq ≤ SC_BAND_HIGH) (hup : l.prev < freq) : Tidy (l.add freq) := by
  have hfreq := toNat_ofInt_band hlow hhigh
  refine ⟨⟨fun f hf => ?_, ?_⟩, ?_, fun f hf => ?_, .inr hlow⟩
  · rcases List.mem_append.1 hf with h | h
    · exact hl.clean.band f h
    · rw [List.mem_singleton.1 h, hfreq]
      exact ⟨hlow, hhigh⟩
  · apply List.pairwise_append.2 ⟨hl.clean.up, List.pairwise_singleton _ _, fun f hf g hg => ?_⟩
    rw [List.mem_singleton.1 hg]
    have hle := hl.prev f hf
    omega
  · show l.cnt + 1 = ((l.tbl ++ [BitVec.ofInt 16 freq]).length : Int)
    rw [List.length_append, List.length_singleton, hl.cnt]
    rfl
  · show (f.toNat : Int) ≤ freq
    rcases List.mem_append.1 hf with h | h
    · exact (hl.prev f h).trans hup.le
    · rw [List.mem_singleton.1 h, hfreq]

/-- How a round ends: before its search, with a search that adds nothing, or with a station above
the ones before, after which the loop ends at the top of the band and goes on below. -/
inductive Round (air : Air) (fuel : Nat) (l : Locals) (searches : List SearchArg) : Prop where
  | full (hroom : ¬ l.cnt < l.max)
      (hloop : scanLoop air (fuel + 1) l searches = some (l, searches))
  | stopped (hroom : l.cnt < l.max) (hstop : air.stop searches.length = true)
      (hloop : scanLoop air (fuel + 1) l searches = some (l, searches))
  | nothing (hroom : l.cnt < l.max)
      (hanswer : AddsNothing l (air.answer searches.length (nextSearch l)))
      (hloop : scanLoop air (fuel + 1) l searches = some (l, searches ++ [nextSearch l]))
  | added (freq : Int) (hroom : l.cnt < l.max)
      (hanswer : air.answer searches.length (nextSearch l) = some freq)
      (hlow : SC_BAND_LOW ≤ freq) (hhigh : freq ≤ SC_BAND_HIGH) (hup : l.prev < freq)
      (hloop : scanLoop air (fuel + 1) l searches =
        if freq = SC_BAND_HIGH then some (l.add freq, searches ++ [nextSearch l])
        else scanLoop air fuel (l.add freq) (searches ++ [nextSearch l]))

theorem round_of_tidy (air : Air) (fuel : Nat) {l : Locals} (hl : Tidy l)
    (searches : List SearchArg) : Round air fuel l searches := by
  by_cases hroom : l.cnt < l.max
  · by_cases hstop : air.stop searches.length = true
    · refine .stopped hroom hstop ?_
      rw [scanLoop, if_neg (not_not.2 hroom), if_pos hstop]
    rcases afterSearch_cases hl.low (air.answer searches.length (nextSearch l)) with
      ⟨hnothing, hpc⟩ | ⟨freq, hanswer, hlow, hhigh, hup, hpc⟩
    · refine .nothing hroom hnothing ?_
      rw [scanLoop, if_neg (not_not.2 hroom), if_neg hstop, hpc]
    · refine .added freq hroom hanswer hlow hhigh hup ?_
      rw [scanLoop, if_neg (not_not.2 hroom), if_neg hstop, hpc]
      by_cases htop : freq = SC_BAND_HIGH
      · rw [if_pos htop, if_pos htop]
      · rw [if_neg htop, if_neg htop]
  · refine .full hroom ?_
    rw [scanLoop, if_pos hroom]

/-! ### The loop and the machine -/

theorem searched_inFlight {s : State} {l : Locals} (hs : s.scan = .inFlight l)
    (answer : Option Int) :
    (searched answer s).scan = afterSearch l answer ∧ (searched answer s).fd = s.fd ∧
      (searched answer s).scanStop = s.scanStop ∧ (searched answer s).searches = s.searches := by
  rw [searched, hs, afterSearch]
  dsimp only
  split
  · exact ⟨rfl, rfl, rfl, rfl⟩
  · exact ⟨rfl, rfl, rfl, rfl⟩

/-- Three steps of the machine make one search of the loop. -/
theorem machine_round (K : FmrConst) {s : State} {l : Locals} (hs : s.scan = .head l)
    (hroom : l.cnt < l.max) (hfd : 0 ≤ s.fd) (hflag : s.scanStop = false) (answer : Option Int) :
    let s' := Run.final (step K) s [.scanStep, .scanStep, .searched answer]
    s'.scan = afterSearch l answer ∧ s'.fd = s.fd ∧ s'.scanStop = s.scanStop ∧
      s'.searches = s.searches ++ [nextSearch l] := by
  have hhead : scanStep K s = { s with scan := .search l } := by
    rw [scanStep, hs]
    dsimp only
    rw [if_neg (not_not.2 hroom), hflag, if_neg Bool.false_ne_true]
  have hsearch : scanStep K { s with scan := .search l } =
      { s with scan := .inFlight l, searches := s.searches ++ [nextSearch l] } := by
    rw [scanStep]
    dsimp only
    rw [if_neg (not_lt.2 hfd)]
    rfl
  have hfinal : Run.final (step K) s [.scanStep, .scanStep, .searched answer] =
      searched answer { s with scan := .inFlight l, searches := s.searches ++ [nextSearch l] } := by
    show searched answer (scanStep K (scanStep K s)) = _
    rw [hhead, hsearch]
  rw [hfinal]
  exact searched_inFlight rfl answer

/-- Where nobody stops it, the machine makes the loop's scan. -/
theorem machine_scans (K : FmrConst) (air : Air) (hstop : ∀ i, air.stop i = false) {fuel : Nat}
    {l l' : Locals} {searches searches' : List SearchArg}
    (hloop : scanLoop air fuel l searches = some (l', searches')) {s : State}
    (hs : s.scan = .head l) (hfd : 0 ≤ s.fd) (hflag : s.scanStop = false)
    (hsearches : s.searches = searches) :
    ∃ events, (Run.final (step K) s events).scan = .finish l' ∧
      (Run.final (step K) s events).searches = searches' := by
  induction fuel generalizing l searches s with
  | zero => cases hloop
  | succ fuel ih =>
      rw [scanLoop] at hloop
      by_cases hroom : l.cnt < l.max
      · rw [if_neg (not_not.2 hroom), hstop, if_neg Bool.false_ne_true] at hloop
        obtain ⟨hscan, hfd', hflag', hsearches'⟩ := machine_round K hs hroom hfd hflag
          (air.answer searches.length (nextSearch l))
        rw [hsearches] at hsearches'
        cases hpc : afterSearch l (air.answer searches.length (nextSearch l)) with
        | head l₁ =>
            rw [hpc] at hloop hscan
            obtain ⟨events, hfinal⟩ := ih hloop hscan (hfd'.symm ▸ hfd) (hflag'.trans hflag)
              hsearches'
            refine ⟨[.scanStep, .scanStep,
              .searched (air.answer searches.length (nextSearch l))] ++ events, ?_⟩
            rw [Run.final_append]
            exact hfinal
        | finish l₁ =>
            rw [hpc] at hloop hscan
            cases hloop
            exact ⟨_, hscan, hsearches'⟩
        | idle | entered num | reset l₁ | search l₁ | inFlight l₁ | returned ret num =>
            rw [hpc] at hloop
            cases hloop
      · have hhead : scanStep K s = { s with scan := .finish l } := by
          rw [scanStep, hs]
          dsimp only
          rw [if_pos hroom]
        rw [if_pos hroom] at hloop
        cases hloop
        refine ⟨[.scanStep], ?_⟩
        show (scanStep K s).scan = .finish l' ∧ (scanStep K s).searches = searches'
        rw [hhead]
        exact ⟨rfl, hsearches⟩

/-! ### Every scan ends with a clean list -/

theorem scanLoop_ends (air : Air) {fuel : Nat} {l : Locals} (searches : List SearchArg)
    (hl : Tidy l) (hfuel : (l.max - l.cnt).toNat < fuel) :
    ∃ l' searches', scanLoop air fuel l searches = some (l', searches') ∧ Tidy l' ∧
      l'.cnt ≤ max l.cnt l.max ∧
      searches'.length ≤ searches.length + (l.max - l.cnt).toNat := by
  induction fuel generalizing l searches with
  | zero => cases hfuel
  | succ fuel ih =>
      have hone : (searches ++ [nextSearch l]).length = searches.length + 1 := by
        rw [List.length_append, List.length_singleton]
      cases round_of_tidy air fuel hl searches with
      | full hroom hloop =>
          exact ⟨l, searches, hloop, hl, le_max_left _ _, Nat.le_add_right _ _⟩
      | stopped hroom hstop hloop =>
          exact ⟨l, searches, hloop, hl, le_max_left _ _, Nat.le_add_right _ _⟩
      | nothing hroom hanswer hloop =>
          exact ⟨l, searches ++ [nextSearch l], hloop, hl, le_max_left _ _, by omega⟩
      | added freq hroom hanswer hlow hhigh hup hloop =>
          have hadd : Tidy (l.add freq) := tidy_add hl hlow hhigh hup
          have hcnt : (l.add freq).cnt = l.cnt + 1 := rfl
          have hmax : (l.add freq).max = l.max := rfl
          rw [hloop]
          split
          · exact ⟨l.add freq, _, rfl, hadd, by omega, by omega⟩
          · obtain ⟨l', searches', hrest, htidy, hle, hlen⟩ :=
              ih (searches ++ [nextSearch l]) hadd (by omega)
            exact ⟨l', searches', hrest, htidy, by omega, by omega⟩

/-! ### A driver that goes from station to station -/

/-- Stations of the band, going up. -/
structure Stations (st : List Int) : Prop where
  band : ∀ f ∈ st, SC_BAND_LOW ≤ f ∧ f ≤ SC_BAND_HIGH
  up : st.Pairwise (· < ·)

/-- Each search is answered with the next station at or above its frequency, and with the lowest
one where there is none. -/
def NextStation (st : List Int) (air : Air) : Prop :=
  ∀ i arg, air.answer i arg = (st.find? fun f => arg.freq ≤ f).or st.head?

/-- The variables between two rounds, with the first `k` stations listed. -/
structure Listed (st : List Int) (k : Nat) (l : Locals) : Prop where
  tidy : Tidy l
  tbl : l.tbl = (st.take k).map (BitVec.ofInt 16)
  le : k ≤ st.length
  below : ∀ f ∈ st.take k, f < l.cur
  above : ∀ f ∈ st.drop k, l.cur ≤ f
  prev : (k = 0 ∧ l.prev = -1) ∨ l.cur = l.prev + 1
  low : SC_BAND_LOW ≤ l.cur
  high : l.cur ≤ SC_BAND_HIGH

theorem listed_scanStart {st : List Int} (hst : Stations st) (maxScanNum num : Int) :
    Listed st 0 (scanStart maxScanNum num) where
  tidy := tidy_scanStart maxScanNum num
  tbl := rfl
  le := Nat.zero_le _
  below := nofun
  above := fun f hf => (hst.band f (List.mem_of_mem_drop hf)).1
  prev := .inl ⟨rfl, rfl⟩
  low := le_refl _
  high := show (875 : Int) ≤ 1080 by decide

theorem Listed.cnt {st : List Int} {k : Nat} {l : Locals} (hl : Listed st k l) : l.cnt = k := by
  rw [hl.tidy.cnt, hl.tbl, List.length_map, List.length_take, min_eq_left hl.le]

theorem nextSearch_freq {l : Locals} (hlow : SC_BAND_LOW ≤ l.cur) (hhigh : l.cur ≤ SC_BAND_HIGH) :
    (nextSearch l).freq = l.cur := by
  show scClampFreq ((l.cur * 10).tdiv 10) = l.cur
  rw [Int.mul_tdiv_cancel _ (by decide), scClampFreq, if_neg (not_lt.2 hlow),
    if_neg (not_lt.2 hhigh)]

/-- The search finds the first station that is not yet listed. -/
theorem answer_of_listed {st : List Int} {air : Air} (hnext : NextStation st air) {k : Nat}
    {l : Locals} (hl : Listed st k l) (i : Nat) :
    air.answer i (nextSearch l) = (st.drop k).head?.or st.head? := by
  rw [hnext, nextSearch_freq hl.low hl.high]
  congr 1
  have hlisted : (st.take k).find? (fun f => decide (l.cur ≤ f)) = none := by
    rw [List.find?_eq_none]
    intro f hf
    have hlt := hl.below f hf
    rw [decide_eq_true_eq]
    omega
  conv_lhs => rw [← List.take_append_drop k st, List.find?_append, hlisted, Option.none_or]
  cases hdrop : st.drop k with
  | nil => rfl
  | cons f rest =>
      have habove := hl.above f (by rw [hdrop]; exact List.mem_cons_self)
      rw [List.head?_cons, List.find?_cons_of_pos]
      exact decide_eq_true habove

/-- All stations are listed where none is left. -/
theorem take_of_drop_eq_nil {st : List Int} {k n : Nat} (hdrop : st.drop k = []) (hn : k ≤ n) :
    st.take n = st.take k := by
  have hlen := List.drop_eq_nil_iff.1 hdrop
  rw [List.take_of_length_le hlen, List.take_of_length_le (hlen.trans hn)]

/-- A station that is not yet listed lies above those that are. -/
theorem above_of_drop {st : List Int} (hst : Stations st) {k : Nat} {f : Int} {rest : List Int}
    (hdrop : st.drop k = f :: rest) :
    (SC_BAND_LOW ≤ f ∧ f ≤ SC_BAND_HIGH) ∧ ∀ g ∈ rest, f < g ∧ g ≤ SC_BAND_HIGH := by
  have hmem : ∀ g ∈ f :: rest, g ∈ st := by
    rw [← hdrop]
    exact fun g hg => List.mem_of_mem_drop hg
  have hup : (f :: rest).Pairwise (· < ·) := by
    rw [← hdrop]
    exact hst.up.sublist (List.drop_sublist k st)
  refine ⟨hst.band f (hmem f List.mem_cons_self), fun g hg => ⟨?_, ?_⟩⟩
  · exact List.rel_of_pairwise_cons hup hg
  · exact (hst.band g (hmem g (List.mem_cons_of_mem _ hg))).2

theorem take_succ_of_drop {st : List Int} {k : Nat} {f : Int} {rest : List Int}
    (hdrop : st.drop k = f :: rest) :
    st.take (k + 1) = st.take k ++ [f] ∧ st.drop (k + 1) = rest := by
  constructor
  · rw [List.take_add, hdrop]
    rfl
  · rw [← List.drop_drop, hdrop]
    rfl

theorem listed_add {st : List Int} (hst : Stations st) {k : Nat} {l : Locals}
    (hl : Listed st k l) {f : Int} {rest : List Int} (hdrop : st.drop k = f :: rest)
    (hup : l.prev < f) (hhigh : f < SC_BAND_HIGH) : Listed st (k + 1) (l.add f) := by
  obtain ⟨⟨hlow, -⟩, habove⟩ := above_of_drop hst hdrop
  obtain ⟨htake, hrest⟩ := take_succ_of_drop hdrop
  have hlen : k < st.length := by
    by_contra hle
    rw [List.drop_eq_nil_of_le (not_lt.1 hle)] at hdrop
    cases hdrop
  refine
    { tidy := tidy_add hl.tidy hlow hhigh.le hup
      tbl := ?_
      le := hlen
      below := fun g hg => ?_
      above := fun g hg => ?_
      prev := .inr rfl
      low := ?_
      high := ?_ }
  · rw [htake, List.map_append, ← hl.tbl]
    rfl
  · show g < f + 1
    rw [htake] at hg
    rcases List.mem_append.1 hg with h | h
    · have hlt := hl.below g h
      have hle := hl.above f (by rw [hdrop]; exact List.mem_cons_self)
      omega
    · rw [List.mem_singleton.1 h]
      exact Int.lt_add_one_of_le le_rfl
  · show f + 1 ≤ g
    rw [hrest] at hg
    exact (habove g hg).1
  · show (875 : Int) ≤ f + 1
    have hlow' : (875 : Int) ≤ f := hlow
    omega
  · show f + 1 ≤ (1080 : Int)
    have hhigh' : f < (1080 : Int) := hhigh
    omega

/-- The next station in the list is above the last one written. -/
theorem prev_lt_of_drop {st : List Int} (hst : Stations st) {k : Nat} {l : Locals}
    (hl : Listed st k l) {f : Int} {rest : List Int} (hdrop : st.drop k = f :: rest) :
    l.prev < f := by
  have hle := hl.above f (by rw [hdrop]; exact List.mem_cons_self)
  obtain ⟨⟨hlow, -⟩, -⟩ := above_of_drop hst hdrop
  rcases hl.prev with ⟨-, hfirst⟩ | hcur
  · rw [hfirst]
    exact lt_of_lt_of_le (by decide) hlow
  · omega

/-- An answer that adds nothing comes when all stations are listed. -/
theorem drop_eq_nil_of_addsNothing {st : List Int} (hst : Stations st) {k : Nat} {l : Locals}
    (hl : Listed st k l) (hnothing : AddsNothing l ((st.drop k).head?.or st.head?)) :
    st.drop k = [] := by
  cases hdrop : st.drop k with
  | nil => rfl
  | cons f rest =>
      obtain ⟨⟨hlow, hhigh⟩, -⟩ := above_of_drop hst hdrop
      have hup := prev_lt_of_drop hst hl hdrop
      have hcnt := hl.cnt
      rw [hdrop, List.head?_cons, Option.some_or] at hnothing
      rcases hnothing f rfl with h | h | h | ⟨hwrap, hsome⟩
      · exact absurd hlow (not_le.2 h)
      · exact absurd hhigh (not_le.2 h)
      · exact absurd hup (not_lt.2 h)
      · -- a listed station below the lowest frequency of the band
        exfalso
        rcases hl.prev with ⟨hzero, -⟩ | hcur
        · omega
        · have hlow' := hl.tidy.low
          have hbase : (875 : Int) ≤ l.cur := hl.low
          have hwrap' : f ≤ (875 : Int) := hwrap
          rcases hlow' with hfirst | hprev
          · omega
          · have hprev' : (875 : Int) ≤ l.prev := hprev
            omega

/-- An answer that adds a station is the first one that is not yet listed. -/
theorem drop_eq_cons_of_added {st : List Int} {k : Nat} {l : Locals} (hl : Listed st k l)
    {freq : Int} (hfound : (st.drop k).head?.or st.head? = some freq) (hup : l.prev < freq) :
    ∃ rest, st.drop k = freq :: rest := by
  cases hdrop : st.drop k with
  | cons f rest =>
      rw [hdrop, List.head?_cons, Option.some_or, Option.some.injEq] at hfound
      exact ⟨rest, by rw [hfound]⟩
  | nil =>
      exfalso
      rw [hdrop, List.head?_nil, Option.none_or] at hfound
      have hmem : freq ∈ st.take k := by
        rw [List.take_of_length_le (List.drop_eq_nil_iff.1 hdrop)]
        exact List.mem_of_head? hfound
      have hlt := hl.below freq hmem
      rcases hl.prev with ⟨hzero, -⟩ | hcur
      · rw [hzero, List.take_zero] at hmem
        cases hmem
      · omega

theorem scanLoop_lists {st : List Int} (hst : Stations st) {air : Air} (hnext : NextStation st air)
    (hstop : ∀ i, air.stop i = false) {fuel k : Nat} {l : Locals} (searches : List SearchArg)
    (hl : Listed st k l) (hk : k ≤ l.max.toNat) (hfuel : (l.max - l.cnt).toNat < fuel) :
    ∃ l' searches', scanLoop air fuel l searches = some (l', searches') ∧
      l'.tbl = (st.take l.max.toNat).map (BitVec.ofInt 16) := by
  induction fuel generalizing k l searches with
  | zero => cases hfuel
  | succ fuel ih =>
      have hanswer := answer_of_listed hnext hl searches.length
      have hcnt := hl.cnt
      cases round_of_tidy air fuel hl.tidy searches with
      | full hroom hloop =>
          have hmax : l.max.toNat = k := by omega
          refine ⟨l, searches, hloop, ?_⟩
          rw [hmax, hl.tbl]
      | stopped hroom hset hloop =>
          rw [hstop] at hset
          cases hset
      | nothing hroom hnothing hloop =>
          refine ⟨l, _, hloop, ?_⟩
          rw [hanswer] at hnothing
          rw [take_of_drop_eq_nil (drop_eq_nil_of_addsNothing hst hl hnothing) hk, hl.tbl]
      | added freq hroom hfound hlow hhigh hup hloop =>
          rw [hanswer] at hfound
          obtain ⟨rest, hdrop⟩ := drop_eq_cons_of_added hl hfound hup
          have hk' : k + 1 ≤ l.max.toNat := by omega
          by_cases htop : freq = SC_BAND_HIGH
          · rw [if_pos htop] at hloop
            refine ⟨l.add freq, _, hloop, ?_⟩
            obtain ⟨htake, hrest⟩ := take_succ_of_drop hdrop
            have hnil : rest = [] := by
              rw [List.eq_nil_iff_forall_not_mem]
              intro g hg
              obtain ⟨hlt, hle⟩ := (above_of_drop hst hdrop).2 g hg
              omega
            rw [hnil] at hrest
            rw [take_of_drop_eq_nil hrest hk', htake, List.map_append, ← hl.tbl]
            rfl
          · rw [if_neg htop] at hloop
            rw [hloop]
            have hmax : (l.add freq).max = l.max := rfl
            have hnext' : (l.add freq).cnt = l.cnt + 1 := rfl
            exact ih _ (listed_add hst hl hdrop hup (lt_of_le_of_ne hhigh htop)) hk' (by omega)

/-! ### The scan -/

/-- However the driver answers, a scan ends after no more searches than it may write entries, and
writes a clean list; it lists the stations, as many as there is room for, of a driver that goes from
station to station. -/
theorem scan_lists_stations (K : FmrConst) (fd maxScanNum num : Int) (air : Air) {fuel : Nat}
    (hfuel : room maxScanNum num < fuel) :
    ∃ r, fmrScan K fd maxScanNum num air fuel = some r ∧
      r.searches.length ≤ room maxScanNum num ∧ r.tbl.length ≤ room maxScanNum num ∧
      Clean r.tbl ∧ (0 ≤ fd → r.num = r.tbl.length ∧
        ∀ st, Stations st → NextStation st air → (∀ i, air.stop i = false) →
          r.tbl = (st.take (room maxScanNum num)).map (BitVec.ofInt 16)) := by
  have hmax : (scanStart maxScanNum num).max.toNat = room maxScanNum num := by
    rw [scanStart_max, room]
  have hcnt : (scanStart maxScanNum num).cnt = 0 := rfl
  have hroom : ((scanStart maxScanNum num).max - (scanStart maxScanNum num).cnt).toNat < fuel := by
    rw [hcnt, Int.sub_zero, hmax]
    exact hfuel
  rw [fmrScan]
  split
  · rename_i hclosed
    exact ⟨_, rfl, Nat.zero_le _, Nat.zero_le _, ⟨nofun, List.Pairwise.nil⟩,
      fun hopen => absurd hopen (not_le.2 hclosed)⟩
  · obtain ⟨l, searches, hloop, htidy, hle, hlen⟩ :=
      scanLoop_ends air [] (tidy_scanStart maxScanNum num) hroom
    rw [hloop, Option.map_some]
    refine ⟨_, rfl, ?_, ?_, htidy.clean, fun _ => ⟨htidy.cnt, fun st hst hnext hstop => ?_⟩⟩
    · rw [hcnt, Int.sub_zero, hmax, List.length_nil, Nat.zero_add] at hlen
      exact hlen
    · show l.tbl.length ≤ room maxScanNum num
      have htbl := htidy.cnt
      rw [hcnt] at hle
      omega
    · obtain ⟨l', searches', hloop', htbl⟩ := scanLoop_lists hst hnext hstop []
        (listed_scanStart hst maxScanNum num) (Nat.zero_le _) hroom
      rw [hloop, Option.some.injEq, Prod.mk.injEq] at hloop'
      show l.tbl = _
      rw [hloop'.1, htbl, hmax]

/-- Two stations at the ends of the band and one between. -/
def threeStations : List Int := [875, 980, 1080]

def threeStationsAir : Air where
  answer := fun _ arg => (threeStations.find? fun f => arg.freq ≤ f).or threeStations.head?
  stop := fun _ => false
  stopped := false

theorem scan_lists_stations_three :
    ∃ r, fmrScan someConst 3 200 50 threeStationsAir 51 = some r ∧
      r.searches.length ≤ room 200 50 ∧ r.tbl.length ≤ room 200 50 ∧ Clean r.tbl ∧
      r.tbl = (threeStations.take (room 200 50)).map (BitVec.ofInt 16) := by
  obtain ⟨r, hr, hsearches, htbl, hclean, hopen⟩ :=
    scan_lists_stations someConst 3 200 50 threeStationsAir
      (show room 200 50 < 51 by decide)
  have hst : Stations threeStations := ⟨by decide, by decide⟩
  exact ⟨r, hr, hsearches, htbl, hclean,
    (hopen (by decide)).2 threeStations hst (fun _ _ => rfl) fun _ => rfl⟩

example : (fmrScan someConst 3 200 50 threeStationsAir 51).map Scanned.tbl =
    some [875, 980, 1080] := by
  decide

end LineageA1000.Fm
