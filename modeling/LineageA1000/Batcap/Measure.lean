import LineageA1000.Lib.Run
import LineageA1000.Lib.Decimal

/-!
# Measuring the battery

`a1000_batcap.sh` adds up the charging current from a low level to the full one and publishes what
the battery took. A measurement lives in two variables and, over restarts of the script, in a file.
Every sample passes a filter for numbers before its status is looked at, so a sample that does not
pass it neither adds to a measurement nor ends it. Numbers are the shell's: 32 bits, decimal, a text
of digits cut to its lowest bits. The level that is saved for the next boot is left out.
-/

namespace LineageA1000.Batcap

/-! ### The shell -/

/-- `is_num`. -/
def isNum (s : Bytes) : Bool := s ≠ [] && s.all Bytes.isDigit

/-- The value of a text that passes `is_num`. -/
def number (s : Bytes) : BitVec 32 := BitVec.ofNat 32 (Bytes.digitsValue s)

/-- A number as `$((…))` puts it into a text. -/
def print (v : BitVec 32) : Bytes :=
  if v.toInt < 0 then 0x2D :: Bytes.decimal v.toInt.natAbs else Bytes.decimal v.toNat

def isBlank (b : UInt8) : Bool := b = 0x20 || b = 0x09

/-- `read` with two names: the first word of the line, and what follows it. -/
def readTwo (text : Bytes) : Bytes × Bytes :=
  let line := (text.takeWhile (· ≠ Bytes.newline)).dropWhile isBlank
  let first := line.takeWhile fun b => !isBlank b
  (first, ((line.drop first.length).dropWhile isBlank).rdropWhile isBlank)

/-! ### The script -/

def interval : BitVec 32 := 30

/-- The design capacity, which the device's property and the script's default agree on. -/
def design : BitVec 32 := 2000

/-- `Charging`. -/
def charging : Bytes := [0x43, 0x68, 0x61, 0x72, 0x67, 0x69, 0x6E, 0x67]

/-- `Full`. -/
def full : Bytes := [0x46, 0x75, 0x6C, 0x6C]

/-- What a pass of the loop reads: `cap`, `st` and `cur`, empty where the file did not open. -/
structure Sample where
  cap : Bytes
  st : Bytes
  cur : Bytes
  deriving DecidableEq

/-- The variables of the measurement and its file. -/
structure Script where
  startCap : Bytes
  acc : BitVec 32
  state : Option Bytes
  deriving DecidableEq

/-- What a measurement sets: `real_mah` and `wear`. -/
structure Published where
  realMah : BitVec 32
  wear : BitVec 32
  deriving DecidableEq

/-- The script before its loop. -/
def startUp (state : Option Bytes) : Script :=
  match state with
  | none => ⟨[], 0, none⟩
  | some text => ⟨(readTwo text).1, if isNum (readTwo text).2 then number (readTwo text).2 else 0,
      some text⟩

/-- `echo "$start_cap $acc" > "$STATE"`, for a measurement just set. -/
def save (startCap : Bytes) (acc : BitVec 32) : Script :=
  ⟨startCap, acc, some (startCap ++ [0x20] ++ print acc ++ [Bytes.newline])⟩

/-- `start_cap=""; acc=0; rm -f "$STATE"`. -/
def discard : Script := ⟨[], 0, none⟩

/-- The computation on a full battery. -/
def realMah (startCap : Bytes) (acc : BitVec 32) : Option Published :=
  let delta := 100 - number startCap
  if 50 ≤ delta.toInt then
    let full := ((acc.sdiv 3600) * 100).sdiv delta
    if 500 ≤ full.toInt ∧ full.toInt ≤ 3000 then
      let wear := 100 - (full * 100).sdiv design
      some ⟨full, if wear.toInt < 0 then 0 else wear⟩
    else none
  else none

/-- One pass of the loop. -/
def measure (s : Script) (sample : Sample) : Script × Option Published :=
  if isNum sample.cap && isNum sample.cur then
    if sample.st = charging then
      if s.startCap = [] then
        if (number sample.cap).toInt ≤ 20 then (save sample.cap 0, none) else (s, none)
      else (save s.startCap (s.acc + number sample.cur * interval), none)
    else if sample.st = full then
      (discard, if s.startCap = [] then none else realMah s.startCap s.acc)
    else if s.startCap = [] then (s, none)
    else (discard, none)
  else (s, none)

/-! ### Runs -/

inductive Event where
  | sample (s : Sample)
  | restart
  deriving DecidableEq

def step (s : Script) : Event → Script
  | .sample sample => (measure s sample).1
  | .restart => startUp s.state

/-- What a pass publishes. -/
def published (s : Script) : Event → Option Published
  | .sample sample => (measure s sample).2
  | .restart => none

/-- The first start, with no measurement to go on with. -/
def firstStart : Script := startUp none

/-! ### What a measurement is -/

/-- A capacity or current that can be read. -/
def readable (s : Bytes) : Option Nat := if isNum s then some (Bytes.digitsValue s) else none

def samplesOf (events : List Event) : List Sample :=
  events.filterMap fun
    | .sample s => some s
    | .restart => none

/-- The sum of the currents that can be read. -/
def currents (events : List Event) : Nat :=
  ((samplesOf events).filterMap fun s => readable s.cur).sum

/-- A charge that goes on at the end of a history: the sample that the measurement started from, at
this capacity, and behind it samples that are all charging, over which the script has measured. -/
def Charges (history : List Event) (start sum : Nat) : Prop :=
  ∃ before first since, history = before ++ .sample first :: since ∧
    first.st = charging ∧ readable first.cap = some start ∧ start ≤ 20 ∧
    (Run.final step firstStart before).startCap = [] ∧
    (∀ more, more <+: since →
      (Run.final step firstStart (before ++ .sample first :: more)).startCap = first.cap) ∧
    (∀ s ∈ samplesOf since, s.st = charging) ∧ sum = currents since

/-- A script with its history. -/
structure Logged where
  script : Script
  history : List Event

def Logged.step (l : Logged) (e : Event) : Logged := ⟨Batcap.step l.script e, l.history ++ [e]⟩

def Logged.first : Logged := ⟨firstStart, []⟩

/-- Nothing is accumulated but one charge that goes on: a script that measures holds what the charge
brought since its start, and one that does not holds nothing. -/
def Accumulates (l : Logged) : Prop :=
  (l.script.startCap = [] → l.script = discard) ∧
  (l.script.startCap ≠ [] → ∃ start sum, Charges l.history start sum ∧
    Bytes.digitsValue l.script.startCap = start ∧ l.script.acc.toInt = 30 * sum)

/-- What a step publishes is what one charge brought, up to the sample that says it is full. -/
def PublishesCharge (l : Logged) (e : Event) : Prop :=
  ∀ p, published l.script e = some p →
    ∃ start sum last, Charges l.history start sum ∧ e = .sample last ∧ last.st = full ∧
      l.script.acc.toInt = 30 * sum ∧
      p.realMah.toInt = 30 * sum / 3600 * 100 / (100 - start)

/-- The samples that the filter does no harm to. A measurement is not started from a number that the
shell cuts to 20 or less. While it goes on, a sample that does not charge can be read, and in one
that charges, a current other than zero comes with a capacity and leaves the sum in the shell's
range. -/
def Harmless (s : Script) : Event → Prop
  | .restart => True
  | .sample sample =>
      if s.startCap = [] then
        sample.st = charging → isNum sample.cap → isNum sample.cur →
          (number sample.cap).toInt ≤ 20 → Bytes.digitsValue sample.cap ≤ 20
      else if sample.st = charging then
        isNum sample.cur → Bytes.digitsValue sample.cur ≠ 0 →
          isNum sample.cap ∧ s.acc.toNat + 30 * Bytes.digitsValue sample.cur < 2 ^ 31
      else isNum sample.cap ∧ isNum sample.cur

/-! ### Texts and numbers -/

theorem ne_nil_of_isNum {s : Bytes} (h : isNum s = true) : s ≠ [] := by
  simp only [isNum, Bool.and_eq_true, decide_eq_true_eq] at h
  exact h.1

theorem isDigit_of_isNum {s : Bytes} (h : isNum s = true) {b : UInt8} (hb : b ∈ s) :
    Bytes.isDigit b = true := by
  simp only [isNum, Bool.and_eq_true, List.all_eq_true] at h
  exact h.2 b hb

theorem isNum_decimal (n : Nat) : isNum (Bytes.decimal n) = true := by
  simp only [isNum, Bool.and_eq_true, decide_eq_true_eq, List.all_eq_true]
  exact ⟨Bytes.decimal_ne_nil n, fun b hb => Bytes.isDigit_of_mem_decimal hb⟩

theorem isBlank_of_isDigit {b : UInt8} (hb : Bytes.isDigit b = true) : isBlank b = false := by
  simp only [Bytes.isDigit, isBlank, Bool.and_eq_true, decide_eq_true_eq, UInt8.le_iff_toNat_le,
    Bool.or_eq_false_iff, decide_eq_false_iff_not, UInt8.ext_iff] at hb ⊢
  simp at hb ⊢
  omega

theorem newline_of_isDigit {b : UInt8} (hb : Bytes.isDigit b = true) : b ≠ Bytes.newline := by
  rintro rfl
  exact absurd hb (by decide)

/-- A line of two numbers is read back. -/
theorem readTwo_line {s t : Bytes} (hs : isNum s = true) (ht : isNum t = true) :
    readTwo (s ++ [0x20] ++ t ++ [Bytes.newline]) = (s, t) := by
  have hline : (s ++ [0x20] ++ t ++ [Bytes.newline]).takeWhile (· ≠ Bytes.newline) =
      s ++ 0x20 :: t := by
    rw [List.takeWhile_append_of_pos]
    · simp
    · intro b hb
      simp only [List.mem_append, List.mem_singleton] at hb
      obtain (hb | rfl) | hb := hb
      · simpa using newline_of_isDigit (isDigit_of_isNum hs hb)
      · decide
      · simpa using newline_of_isDigit (isDigit_of_isNum ht hb)
  have hword : (s ++ 0x20 :: t).takeWhile (fun b => !isBlank b) = s := by
    rw [List.takeWhile_append_of_pos]
    · simp [isBlank]
    · intro b hb
      simp [isBlank_of_isDigit (isDigit_of_isNum hs hb)]
  have hstart : (s ++ 0x20 :: t).dropWhile isBlank = s ++ 0x20 :: t := by
    obtain ⟨b, s, rfl⟩ := List.exists_cons_of_ne_nil (ne_nil_of_isNum hs)
    simp [isBlank_of_isDigit (isDigit_of_isNum hs List.mem_cons_self)]
  have hend : t.rdropWhile isBlank = t := by
    apply List.rdropWhile_eq_self_iff.mpr
    intro hne
    simp [isBlank_of_isDigit (isDigit_of_isNum ht (List.getLast_mem hne))]
  have hrest : (0x20 :: t).dropWhile isBlank = t := by
    rw [List.dropWhile_cons_of_pos (by decide)]
    apply List.dropWhile_eq_self_iff.mpr
    intro hlen
    simp [isBlank_of_isDigit (isDigit_of_isNum ht (List.getElem_mem hlen))]
  simp only [readTwo, hline, hstart, hword, List.drop_left, hrest, hend]

theorem startUp_save {startCap : Bytes} {acc : BitVec 32} (hcap : isNum startCap = true)
    (hacc : 0 ≤ acc.toInt) : startUp (save startCap acc).state = save startCap acc := by
  have hprint : print acc = Bytes.decimal acc.toNat := if_neg (Int.not_lt.mpr hacc)
  have hread : readTwo (startCap ++ [0x20] ++ print acc ++ [Bytes.newline]) =
      (startCap, print acc) := by
    rw [hprint]
    exact readTwo_line hcap (isNum_decimal _)
  simp only [startUp, save, hread]
  rw [hprint, if_pos (isNum_decimal _), number, Bytes.digitsValue_decimal]
  simp

/-! ### A pass of the loop -/

theorem measure_discard (sample : Sample) :
    measure discard sample =
      if (isNum sample.cap && isNum sample.cur) ∧ sample.st = charging ∧
          (number sample.cap).toInt ≤ 20 then (save sample.cap 0, none)
      else (discard, none) := by
  unfold measure discard
  split_ifs <;> simp_all

theorem measure_save {startCap : Bytes} (hcap : startCap ≠ []) (acc : BitVec 32)
    (sample : Sample) :
    measure (save startCap acc) sample =
      if isNum sample.cap && isNum sample.cur then
        if sample.st = charging then (save startCap (acc + number sample.cur * interval), none)
        else (discard, if sample.st = full then realMah startCap acc else none)
      else (save startCap acc, none) := by
  have hmeasuring : (save startCap acc).startCap ≠ [] := hcap
  simp only [measure, hmeasuring, if_false]
  split_ifs <;> rfl

/-! ### One charge -/

theorem samplesOf_append (xs ys : List Event) :
    samplesOf (xs ++ ys) = samplesOf xs ++ samplesOf ys := List.filterMap_append

theorem currents_append (xs ys : List Event) : currents (xs ++ ys) = currents xs + currents ys := by
  simp only [currents, samplesOf_append, List.filterMap_append, List.sum_append]

theorem readable_of_isNum {s : Bytes} (h : isNum s = true) :
    readable s = some (Bytes.digitsValue s) := if_pos h

theorem currents_of_isNum {sample : Sample} (h : isNum sample.cur = true) :
    currents [.sample sample] = Bytes.digitsValue sample.cur := by
  simp [currents, samplesOf, readable_of_isNum h]

theorem currents_of_not_isNum {sample : Sample} (h : ¬ isNum sample.cur = true) :
    currents [.sample sample] = 0 := by
  simp [currents, samplesOf, readable, h]

/-- A charge goes on over a restart and over a sample that charges, if the script measures on. -/
theorem Charges.append {history : List Event} {start sum : Nat} (h : Charges history start sum)
    {e : Event} (he : ∀ s ∈ samplesOf [e], s.st = charging)
    (hkeep : (Run.final step firstStart (history ++ [e])).startCap =
      (Run.final step firstStart history).startCap) :
    Charges (history ++ [e]) start (sum + currents [e]) := by
  obtain ⟨before, first, since, rfl, hst, hcap, hstart, hidle, hset, hsince, rfl⟩ := h
  refine ⟨before, first, since ++ [e], by simp, hst, hcap, hstart, hidle, ?_, ?_, ?_⟩
  · intro more hmore
    obtain rfl | hmore := List.prefix_concat_iff.mp hmore
    · rw [← List.cons_append, ← List.append_assoc, hkeep]
      exact hset since List.prefix_rfl
    · exact hset more hmore
  · intro s hs
    rw [samplesOf_append, List.mem_append] at hs
    exact hs.elim (hsince s) (he s)
  · rw [currents_append]

/-- A charge ends with a sample that charges, and before it there was the same charge. -/
theorem Charges.of_append {history : List Event} {e : Event} {start sum : Nat}
    (h : Charges (history ++ [e]) start sum)
    (hmeasuring : (Run.final step firstStart history).startCap ≠ []) :
    (∀ s ∈ samplesOf [e], s.st = charging) ∧
      ∃ prev, Charges history start prev ∧ sum = prev + currents [e] := by
  obtain ⟨before, first, since, heq, hst, hcap, hstart, hidle, hset, hsince, rfl⟩ := h
  obtain rfl | ⟨since, e', rfl⟩ := List.eq_nil_or_concat since
  · obtain ⟨rfl, -⟩ := List.append_inj' heq rfl
    exact absurd hidle hmeasuring
  · rw [List.concat_eq_append, ← List.cons_append, ← List.append_assoc] at heq
    obtain ⟨rfl, hlast⟩ := List.append_inj' heq rfl
    obtain rfl := List.singleton_inj.mp hlast
    rw [List.concat_eq_append] at hset hsince ⊢
    rw [samplesOf_append] at hsince
    refine ⟨fun s hs => hsince s (List.mem_append_right _ hs), currents since, ?_, ?_⟩
    · refine ⟨before, first, since, rfl, hst, hcap, hstart, hidle, ?_, ?_, rfl⟩
      · exact fun more hmore => hset more (hmore.trans (List.prefix_append since [e]))
      · exact fun s hs => hsince s (List.mem_append_left _ hs)
    · rw [currents_append]

theorem ne_nil_of_readable {s : Bytes} {n : Nat} (h : readable s = some n) : s ≠ [] := by
  rintro rfl
  exact nomatch h

/-- A measurement starts where the script was idle, so no other one starts before it ends. -/
theorem Charges.unique {history : List Event} {start sum start' sum' : Nat}
    (h : Charges history start sum) (h' : Charges history start' sum') : sum = sum' := by
  obtain ⟨before, first, since, rfl, -, hcap, -, hidle, hset, -, rfl⟩ := h
  obtain ⟨before', first', since', heq, -, hcap', -, hidle', hset', -, rfl⟩ := h'
  obtain ⟨mid, rfl, hmid⟩ | ⟨mid, rfl, hmid⟩ := List.append_eq_append_iff.mp heq
  · cases mid with
    | nil => rw [(List.cons.inj hmid).2]
    | cons e mid =>
        obtain ⟨rfl, rfl⟩ := List.cons.inj hmid
        have hmeasures := hset mid (List.prefix_append mid _)
        exact absurd (hmeasures.symm.trans hidle') (ne_nil_of_readable hcap)
  · cases mid with
    | nil => rw [(List.cons.inj hmid).2]
    | cons e mid =>
        obtain ⟨rfl, rfl⟩ := List.cons.inj hmid
        have hmeasures := hset' mid (List.prefix_append mid _)
        exact absurd (hmeasures.symm.trans hidle) (ne_nil_of_readable hcap')

/-- What every reachable state is: idle, or in the middle of one charge that it holds exactly. -/
def Tracks (l : Logged) : Prop :=
  l.script = Run.final step firstStart l.history ∧
  (l.script = discard ∨ ∃ startCap acc, ∃ start sum : Nat, l.script = save startCap acc ∧
    isNum startCap = true ∧ Bytes.digitsValue startCap = start ∧ acc.toInt = 30 * sum ∧
    Charges l.history start sum)

theorem tracks_first : Tracks Logged.first := ⟨rfl, .inl rfl⟩

theorem Tracks.accumulates {l : Logged} (h : Tracks l) : Accumulates l := by
  obtain ⟨-, hidle | ⟨startCap, acc, start, sum, hsave, hcap, hstart, hacc, hcharges⟩⟩ := h
  · exact ⟨fun _ => hidle, fun hne => absurd (congrArg Script.startCap hidle) hne⟩
  · rw [Accumulates, hsave]
    refine ⟨fun hnil => absurd hnil (ne_nil_of_isNum hcap), fun _ => ?_⟩
    exact ⟨start, sum, hcharges, hstart, hacc⟩

theorem final_snoc (l : Logged) (e : Event)
    (h : l.script = Run.final step firstStart l.history) :
    (l.step e).script = Run.final step firstStart (l.step e).history := by
  simp only [Logged.step, Run.final_append, ← h]
  rfl

/-- The start of a measurement. -/
theorem charges_start {history : List Event} {sample : Sample}
    (hidle : Run.final step firstStart history = discard)
    (hread : (isNum sample.cap && isNum sample.cur) = true) (hst : sample.st = charging)
    (hlow : (number sample.cap).toInt ≤ 20) (hexact : Bytes.digitsValue sample.cap ≤ 20) :
    Charges (history ++ [.sample sample]) (Bytes.digitsValue sample.cap) 0 := by
  have hcap : isNum sample.cap = true := (Bool.and_eq_true_iff.mp hread).1
  refine ⟨history, sample, [], rfl, hst, readable_of_isNum hcap, hexact, ?_, ?_, nofun, rfl⟩
  · rw [hidle]
    rfl
  · intro more hmore
    obtain rfl := List.prefix_nil.mp hmore
    rw [Run.final_append, hidle, Run.final_cons, Run.final_nil, step, measure_discard,
      if_pos ⟨hread, hst, hlow⟩]
    rfl

theorem tracks_step_idle {l : Logged} {e : Event}
    (hscript : l.script = Run.final step firstStart l.history) (hidle : l.script = discard)
    (he : Harmless l.script e) : Tracks (l.step e) := by
  refine ⟨final_snoc l e hscript, ?_⟩
  simp only [Logged.step]
  rw [hidle] at he ⊢
  cases e with
  | restart => exact .inl rfl
  | sample sample =>
      simp only [step, measure_discard]
      split
      · rename_i hstarts
        obtain ⟨hread, hst, hlow⟩ := hstarts
        have hnums := Bool.and_eq_true_iff.mp hread
        have hexact : Bytes.digitsValue sample.cap ≤ 20 := he hst hnums.1 hnums.2 hlow
        right
        refine ⟨sample.cap, 0, Bytes.digitsValue sample.cap, 0, rfl, hnums.1, rfl, rfl, ?_⟩
        exact charges_start (hscript.symm.trans hidle) hread hst hlow hexact
      · exact .inl rfl

theorem toNat_of_toInt {v : BitVec 32} {n : Nat} (h : v.toInt = 30 * n) : v.toNat = 30 * n := by
  rw [BitVec.toInt_eq_toNat_cond] at h
  split at h
  all_goals omega

/-- A current is added in full. -/
theorem toInt_add_current {acc : BitVec 32} {sum : Nat} {cur : Bytes}
    (hacc : acc.toInt = 30 * sum)
    (hrange : Bytes.digitsValue cur ≠ 0 → acc.toNat + 30 * Bytes.digitsValue cur < 2 ^ 31) :
    (acc + number cur * interval).toInt = 30 * (sum + Bytes.digitsValue cur : Nat) := by
  generalize hvalue : Bytes.digitsValue cur = value at *
  have hcurrent : number cur = BitVec.ofNat 32 value := by rw [number, hvalue]
  rw [hcurrent]
  by_cases hzero : value = 0
  · simp [hzero, hacc]
  · have hlt := hrange hzero
    have hnat := toNat_of_toInt hacc
    have hsum : (acc + BitVec.ofNat 32 value * interval).toNat = 30 * (sum + value) := by
      simp [interval, BitVec.toNat_add, BitVec.toNat_mul]
      omega
    rw [BitVec.toInt_eq_toNat_of_lt (by omega), hsum]
    push_cast
    ring

/-- The script measures on through samples that charge. -/
theorem startCap_step_charging {startCap : Bytes} (hcap : startCap ≠ []) (acc : BitVec 32)
    {sample : Sample} (hst : sample.st = charging) :
    (step (save startCap acc) (.sample sample)).startCap = startCap := by
  rw [step, measure_save hcap, if_pos hst]
  split <;> rfl

theorem tracks_step_charging {l : Logged} {e : Event} {startCap : Bytes} {acc : BitVec 32}
    {start sum : Nat} (hscript : l.script = Run.final step firstStart l.history)
    (hsave : l.script = save startCap acc) (hcap : isNum startCap = true)
    (hstart : Bytes.digitsValue startCap = start) (hacc : acc.toInt = 30 * sum)
    (hcharges : Charges l.history start sum) (he : Harmless l.script e) : Tracks (l.step e) := by
  have hne : startCap ≠ [] := ne_nil_of_isNum hcap
  have hkeep (hstep : (step (save startCap acc) e).startCap = startCap) :
      (Run.final step firstStart (l.history ++ [e])).startCap =
        (Run.final step firstStart l.history).startCap := by
    rw [Run.final_append, ← hscript, hsave]
    exact hstep
  refine ⟨final_snoc l e hscript, ?_⟩
  simp only [Logged.step]
  rw [hsave] at he ⊢
  cases e with
  | restart =>
      have hread : step (save startCap acc) .restart = save startCap acc :=
        startUp_save hcap (by omega)
      right
      refine ⟨startCap, acc, start, sum, hread, hcap, hstart, hacc, ?_⟩
      exact hcharges.append nofun (hkeep (by rw [hread]; rfl))
  | sample sample =>
      have hmeasuring : (save startCap acc).startCap ≠ [] := hne
      simp only [Harmless, hmeasuring, if_false] at he
      simp only [step, measure_save hne]
      by_cases hst : sample.st = charging
      · -- the charge goes on, with or without this current
        have hgo : ∀ s ∈ samplesOf [.sample sample], s.st = charging := by
          simpa [samplesOf] using hst
        have hnext := hcharges.append hgo (hkeep (startCap_step_charging hne acc hst))
        simp only [hst, if_true] at he ⊢
        right
        split
        · rename_i hread
          have hcur : isNum sample.cur = true := (Bool.and_eq_true_iff.mp hread).2
          rw [currents_of_isNum hcur] at hnext
          exact ⟨startCap, _, start, _, rfl, hcap, hstart,
            toInt_add_current hacc fun hne => (he hcur hne).2, hnext⟩
        · rename_i hread
          have hcurrents : currents [.sample sample] = 0 := by
            by_cases hcur : isNum sample.cur = true
            · have hzero : Bytes.digitsValue sample.cur = 0 := by
                by_contra hne
                exact hread (Bool.and_eq_true_iff.mpr ⟨(he hcur hne).1, hcur⟩)
              rw [currents_of_isNum hcur, hzero]
            · exact currents_of_not_isNum hcur
          rw [hcurrents] at hnext
          exact ⟨startCap, acc, start, sum, rfl, hcap, hstart, hacc, hnext⟩
      · left
        simp only [hst, if_false] at he ⊢
        rw [if_pos (Bool.and_eq_true_iff.mpr he)]

theorem tracks_step (l : Logged) (e : Event) (h : Tracks l) (he : Harmless l.script e) :
    Tracks (l.step e) := by
  obtain ⟨hscript, hidle | ⟨startCap, acc, start, sum, hsave, hcap, hstart, hacc, hcharges⟩⟩ := h
  · exact tracks_step_idle hscript hidle he
  · exact tracks_step_charging hscript hsave hcap hstart hacc hcharges he

theorem harmless_of_accumulates_idle {l : Logged} {e : Event} (hidle : l.script = discard)
    (hnext : Accumulates (l.step e)) : Harmless l.script e := by
  rw [Accumulates, Logged.step, hidle] at hnext
  rw [hidle]
  cases e with
  | restart => trivial
  | sample sample =>
      intro hst hcap hcur hlow
      rw [step, measure_discard, if_pos ⟨by simp [hcap, hcur], hst, hlow⟩] at hnext
      obtain ⟨start, sum, hcharges, hstart, -⟩ := hnext.2 (ne_nil_of_isNum hcap)
      obtain ⟨_, _, _, _, _, _, hle, _⟩ := hcharges
      exact hstart.trans_le hle

/-- In the middle of a charge, what the next state has to hold is known: the same charge with the
sample's current added. -/
theorem harmless_of_accumulates_charging {l : Logged} {e : Event} {startCap : Bytes}
    {acc : BitVec 32} {start sum : Nat} (hscript : l.script = Run.final step firstStart l.history)
    (hsave : l.script = save startCap acc) (hcap : isNum startCap = true)
    (hacc : acc.toInt = 30 * sum) (hcharges : Charges l.history start sum)
    (hnext : Accumulates (l.step e)) : Harmless l.script e := by
  have hne : startCap ≠ [] := ne_nil_of_isNum hcap
  have hmeasuring : (Run.final step firstStart l.history).startCap ≠ [] := by
    rw [← hscript, hsave]
    exact hne
  have hholds (hkeep : (l.step e).script.startCap ≠ []) :
      (∀ s ∈ samplesOf [e], s.st = charging) ∧
        (l.step e).script.acc.toInt = 30 * (sum + currents [e] : Nat) := by
    obtain ⟨_, _, hcharges', -, hacc'⟩ := hnext.2 hkeep
    obtain ⟨hlast, prev, hprev, rfl⟩ := hcharges'.of_append hmeasuring
    obtain rfl := hcharges.unique hprev
    exact ⟨hlast, hacc'⟩
  simp only [Logged.step] at hholds
  rw [hsave] at hholds ⊢
  cases e with
  | restart => trivial
  | sample sample =>
      have hsaved : (save startCap acc).startCap ≠ [] := hne
      simp only [Harmless, hsaved, if_false]
      rw [step, measure_save hne] at hholds
      split
      · rename_i hst
        intro hcur hvalue
        rw [currents_of_isNum hcur] at hholds
        cases hread : isNum sample.cap with
        | true =>
            refine ⟨rfl, ?_⟩
            rw [if_pos (by simp [hread, hcur]), if_pos hst] at hholds
            have hexact : (acc + number sample.cur * interval).toInt =
                30 * (sum + Bytes.digitsValue sample.cur : Nat) := (hholds hne).2
            have hlt := BitVec.toInt_lt (x := acc + number sample.cur * interval)
            rw [hexact] at hlt
            change acc.toNat + 30 * Bytes.digitsValue sample.cur < 2 ^ 31
            rw [toNat_of_toInt hacc]
            omega
        | false =>
            rw [if_neg (by simp [hread])] at hholds
            have hsame : acc.toInt = 30 * (sum + Bytes.digitsValue sample.cur : Nat) :=
              (hholds hne).2
            omega
      · rename_i hst
        by_contra hread
        rw [if_neg (by simpa using hread)] at hholds
        exact hst ((hholds hne).1 sample (by simp [samplesOf]))

/-- A step that is not harmless accumulates something else than one charge. -/
theorem harmless_of_accumulates (l : Logged) (e : Event) (h : Tracks l)
    (hnext : Accumulates (l.step e)) : Harmless l.script e := by
  obtain ⟨hscript, hidle | ⟨startCap, acc, start, sum, hsave, hcap, -, hacc, hcharges⟩⟩ := h
  · exact harmless_of_accumulates_idle hidle hnext
  · exact harmless_of_accumulates_charging hscript hsave hcap hacc hcharges hnext

/-! ### The result -/

theorem toInt_sdiv_of_nonneg {a b : BitVec 32} (ha : 0 ≤ a.toInt) (hb : 0 < b.toInt) :
    (a.sdiv b).toInt = a.toInt / b.toInt := by
  have hne : b ≠ -1#32 := by
    rintro rfl
    exact absurd hb (by decide)
  rw [BitVec.toInt_sdiv_of_ne_or_ne a b (.inr hne), Int.tdiv_eq_ediv_of_nonneg ha]

/-- What is published is computed without loss. -/
theorem realMah_toInt {startCap : Bytes} {acc : BitVec 32} {start sum : Nat} {p : Published}
    (hstart : Bytes.digitsValue startCap = start) (hlow : start ≤ 20)
    (hacc : acc.toInt = 30 * sum) (hp : realMah startCap acc = some p) :
    p.realMah.toInt = 30 * sum / 3600 * 100 / (100 - start) := by
  have hdelta : (100 - number startCap : BitVec 32).toInt = 100 - start := by
    have hnat : (100 - number startCap : BitVec 32).toNat = 100 - start := by
      rw [number, hstart]
      bv_omega
    rw [BitVec.toInt_eq_toNat_of_lt (by omega), hnat]
    omega
  have hhours : (acc.sdiv 3600).toInt = 30 * sum / 3600 := by
    rw [toInt_sdiv_of_nonneg (by omega) (by decide), hacc]
    rfl
  have hrange : 30 * (sum : Int) < 2 ^ 31 := by
    have hlt := BitVec.toInt_lt (x := acc)
    omega
  have hscaled : (acc.sdiv 3600 * 100).toInt = 30 * sum / 3600 * 100 := by
    have hhundred : (100 : BitVec 32).toInt = 100 := rfl
    rw [BitVec.toInt_mul, hhours, hhundred, Int.bmod_eq_of_le]
    all_goals omega
  simp only [realMah] at hp
  have hvalue : p.realMah = (acc.sdiv 3600 * 100).sdiv (100 - number startCap) := by
    split at hp
    · split at hp
      · rw [← Option.some.inj hp]
      · exact nomatch hp
    · exact nomatch hp
  rw [hvalue, toInt_sdiv_of_nonneg (by omega) (by omega), hscaled, hdelta]

theorem published_discard (e : Event) : published discard e = none := by
  cases e with
  | restart => rfl
  | sample sample =>
      simp only [published, measure_discard]
      split <;> rfl

theorem Tracks.publishesCharge {l : Logged} {e : Event} (h : Tracks l) : PublishesCharge l e := by
  intro p hp
  obtain ⟨-, hidle | ⟨startCap, acc, start, sum, hsave, hcap, hstart, hacc, hcharges⟩⟩ := h
  · rw [hidle, published_discard] at hp
    exact nomatch hp
  · rw [hsave] at hp ⊢
    cases e with
    | restart => exact nomatch hp
    | sample sample =>
        simp only [published, measure_save (ne_nil_of_isNum hcap)] at hp
        split_ifs at hp with hread hst hfull
        have hlow : start ≤ 20 := by
          obtain ⟨_, _, _, _, _, _, hlow, _⟩ := hcharges
          exact hlow
        exact ⟨start, sum, sample, hcharges, rfl, hfull, hacc,
          realMah_toInt hstart hlow hacc hp⟩

/-- Whatever the texts and wherever the restarts, a script holds one charge and publishes one charge
throughout a run exactly when each of its samples is one that the filter does no harm to. -/
theorem publishesCharge_iff_harmless (events : List Event) :
    (Run.Always Logged.step Accumulates Logged.first events ∧
      Run.EachStep Logged.step PublishesCharge Logged.first events) ↔
      Run.EachStep Logged.step (fun l e => Harmless l.script e) Logged.first events := by
  have hiff : Run.Always Logged.step Accumulates Logged.first events ↔
      Run.EachStep Logged.step (fun l e => Harmless l.script e) Logged.first events :=
    Run.always_iff_eachStep_of_invariant tracks_step harmless_of_accumulates
      (fun _ => Tracks.accumulates) tracks_first
  constructor
  · intro ⟨haccumulates, _⟩
    exact hiff.mp haccumulates
  · intro hharmless
    have htracks : Run.Always Logged.step Tracks Logged.first events :=
      Run.always_of_eachStep tracks_step tracks_first hharmless
    exact ⟨hiff.mpr hharmless, Run.eachStep_of_always (fun _ _ => Tracks.publishesCharge) htracks⟩

theorem final_logged (events : List Event) :
    Run.final Logged.step Logged.first events = ⟨Run.final step firstStart events, events⟩ := by
  induction events using List.reverseRecOn with
  | nil => rfl
  | append_singleton events e ih =>
      rw [Run.final_append, ih, Run.final_append]
      rfl

/-! ### Runs of samples -/

/-- A sample of a capacity, a status and a current. -/
def reads (cap : Nat) (st : Bytes) (cur : Nat) : Event :=
  .sample ⟨Bytes.decimal cap, st, Bytes.decimal cur⟩

/-- A charge of half an hour with one restart. -/
def wholeCharge : List Event :=
  [reads 15 charging 1000] ++ List.replicate 30 (reads 50 charging 1000) ++ [.restart] ++
    List.replicate 30 (reads 80 charging 1000)

example : published (Run.final step firstStart wholeCharge) (reads 100 full 0) =
    some ⟨588, 71⟩ := by
  decide +kernel

/-- `Discharging`. -/
def discharging : Bytes := [0x44, 0x69, 0x73, 0x63, 0x68, 0x61, 0x72, 0x67, 0x69, 0x6E, 0x67]

/-- A discharge in between, whose current is negative. -/
def brokenCharge : List Event :=
  [reads 15 charging 1000,
    .sample ⟨Bytes.decimal 14, discharging, 0x2D :: Bytes.decimal 300⟩] ++
    List.replicate 60 (reads 50 charging 1000)

/-- The sample that does not charge does not pass the filter, and the measurement goes on. -/
theorem not_publishesCharge_brokenCharge :
    ¬ ∀ events : List Event, Run.EachStep Logged.step PublishesCharge Logged.first events := by
  intro hall
  have hlast := (hall (brokenCharge ++ [reads 100 full 0])).last
  rw [final_logged] at hlast
  have hpublished : published (Run.final step firstStart brokenCharge) (reads 100 full 0) =
      some ⟨588, 71⟩ := by
    decide +kernel
  generalize Run.final step firstStart brokenCharge = s at hlast hpublished
  obtain ⟨start, sum, -, hcharges, -⟩ := hlast _ hpublished
  obtain ⟨before, first, since, heq, hst, hcap, hlow, -, -, hsince, -⟩ := hcharges
  -- only the first sample charges at 20 or less, and the second does not charge
  cases before with
  | nil =>
      obtain ⟨-, rfl⟩ := List.cons.inj heq
      have hcharging := hsince _ (List.mem_cons_self (a := (⟨_, discharging, _⟩ : Sample)))
      exact absurd hcharging (by decide)
  | cons e before =>
      have htail : .sample ⟨Bytes.decimal 14, discharging, 0x2D :: Bytes.decimal 300⟩ ::
          List.replicate 60 (reads 50 charging 1000) = before ++ .sample first :: since :=
        (List.cons.inj heq).2
      have hmem : Event.sample first ∈ before ++ .sample first :: since := by simp
      rw [← htail] at hmem
      obtain hfirst | hmem := List.mem_cons.mp hmem
      · rw [Event.sample.inj hfirst] at hst
        exact absurd hst (by decide)
      · rw [Event.sample.inj (List.eq_of_mem_replicate hmem)] at hcap
        have hfifty : start = 50 := by
          rw [readable_of_isNum (isNum_decimal 50), Bytes.digitsValue_decimal] at hcap
          exact (Option.some.inj hcap).symm
        omega

end LineageA1000.Batcap
