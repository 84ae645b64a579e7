import LineageA1000.Lib.Run
import LineageA1000.Sepolicy.Policy

/-!
# The rules file

The main loop of `a1000_sepolicy_inject.c`: `fgets` into 512 bytes, a comment cut off, `sscanf` into
four fields of fixed width, `add_allow`. What the tool adds is exactly what the rules it reads stand
for, in any order and however often; these are the rules of the file where no line and no field is
cut, and the main theorem says what exactly has to be unaffected by the cuts.
-/

namespace LineageA1000.Sepolicy

open Bytes

/-- The line as a C string, ended at its first `#`. -/
def cutComment (line : Bytes) : Bytes :=
  (line.takeWhile fun b => b ≠ 0).takeWhile fun b => b ≠ 0x23

/-- `sscanf(line, "%127s %127s %63s %255s", s, t, c, p)`, if it returns 4. -/
def scanRule (line : Bytes) : Option Rule :=
  match scanFields [127, 127, 63, 255] (cutComment line) with
  | some [s, t, c, p] => some ⟨s, t, c, p⟩
  | _ => none

/-- The policy and the counters of the main loop. -/
structure Tool where
  pdb : Policydb
  added : Nat
  bad : Nat

/-- One pass of the main loop. -/
def ruleStep (st : Tool) (line : Bytes) : Tool :=
  match scanRule line with
  | none => st
  | some r =>
      match addAllow st.pdb r with
      | .error _ => { st with bad := st.bad + 1 }
      | .ok pdb => { st with pdb := pdb, added := st.added + 1 }

/-- The tool on a policy and a rules file: what it writes and its counters. -/
def inject (pdb : Policydb) (file : Bytes) : Tool :=
  Run.final ruleStep ⟨pdb, 0, 0⟩ (pieces 511 file)

/-- The rule on a line: four fields in front of a comment. -/
def lineRule (l : Bytes) : Option Rule :=
  match words (l.takeWhile fun b => b ≠ 0x23) with
  | [s, t, c, p] => some ⟨s, t, c, p⟩
  | _ => none

/-- The rules of the file. -/
def lineRules (file : Bytes) : List Rule := (lines file).filterMap lineRule

/-- The rules as the tool's buffers hold them. -/
def pieceRules (file : Bytes) : List Rule := (pieces 511 file).filterMap scanRule

/-- The accesses that some rule of the list stands for. -/
def grantsAll (pdb : Policydb) (rules : List Rule) : Set Access :=
  {a | ∃ r ∈ rules, a ∈ grants pdb r}

/-! ### What the loop adds -/

theorem length_perms_scanRule {line : Bytes} {r : Rule} (hscan : scanRule line = some r) :
    r.perms.length ≤ 511 := by
  rw [scanRule] at hscan
  split at hscan
  · rename_i s t c p hfields
    cases hscan
    obtain ⟨-, -, -, hperms, -⟩ := fitsWidths_of_scanFields hfields
    exact hperms.trans (by decide)
  · cases hscan

theorem ruleStep_spec (pdb : Policydb) (st : Tool) (line : Bytes) (hst : SameNames pdb st.pdb) :
    SameNames pdb (ruleStep st line).pdb ∧
      allows (ruleStep st line).pdb =
        allows st.pdb ∪ {a | ∃ r, scanRule line = some r ∧ a ∈ grants pdb r} := by
  have hgrants := grants_of_sameNames hst
  rw [ruleStep]
  cases hscan : scanRule line with
  | none =>
      refine ⟨hst, ?_⟩
      simp only [reduceCtorEq, false_and, exists_false, Set.ofPred_false, Set.union_empty]
  | some r =>
      have hlen := length_perms_scanRule hscan
      simp only [Option.some.injEq, exists_eq_left']
      cases hadd : addAllow st.pdb r with
      | error e =>
          have hempty := grants_eq_empty_of_error hlen hadd
          rw [hgrants] at hempty
          refine ⟨hst, ?_⟩
          dsimp only
          rw [Set.ofPred_mem_eq, hempty, Set.union_empty]
      | ok pdb' =>
          obtain ⟨hsame, hallows⟩ := addAllow_eq_ok hlen hadd
          rw [hgrants] at hallows
          exact ⟨⟨hsame.1.trans hst.1, hsame.2.trans hst.2⟩, hallows⟩

/-- The tool adds the accesses of the rules it reads, and nothing else. -/
theorem inject_spec (pdb : Policydb) (file : Bytes) :
    SameNames pdb (inject pdb file).pdb ∧
      allows (inject pdb file).pdb = allows pdb ∪ grantsAll pdb (pieceRules file) := by
  have hrun : SameNames pdb (inject pdb file).pdb ∧ allows (inject pdb file).pdb = allows pdb ∪
      {a | ∃ line ∈ pieces 511 file, a ∈ {a | ∃ r, scanRule line = some r ∧ a ∈ grants pdb r}} :=
    Run.final_accumulates (P := fun st : Tool => SameNames pdb st.pdb)
      (fun st => allows st.pdb) _
      (ruleStep_spec pdb) ⟨rfl, rfl⟩
  refine ⟨hrun.1, ?_⟩
  rw [hrun.2, grantsAll, pieceRules]
  congr 1
  ext a
  simp only [Set.mem_ofPred_eq, List.mem_filterMap]
  constructor
  · intro ⟨line, hline, r, hr, ha⟩
    exact ⟨r, ⟨line, hline, hr⟩, ha⟩
  · intro ⟨r, ⟨line, hline, hr⟩, ha⟩
    exact ⟨line, hline, r, hr, ha⟩

/-! ### Rules of lines and rules of pieces -/

theorem scanRule_append_newline (line : Bytes) : scanRule (line ++ [newline]) = scanRule line := by
  have hcut : cutComment (line ++ [newline]) = cutComment line ∨
      cutComment (line ++ [newline]) = cutComment line ++ [newline] := by
    rw [cutComment, cutComment, List.takeWhile_append]
    split
    · rename_i hall
      rw [(List.takeWhile_prefix _).eq_of_length hall, List.takeWhile_cons_of_pos (by decide),
        List.takeWhile_nil, List.takeWhile_append]
      split
      · rename_i hall'
        rw [(List.takeWhile_prefix _).eq_of_length hall', List.takeWhile_cons_of_pos (by decide)]
        exact Or.inr rfl
      · exact Or.inl rfl
    · exact Or.inl rfl
  rw [scanRule, scanRule]
  rcases hcut with hcut | hcut
  · rw [hcut]
  · rw [hcut, scanFields_append_newline]

/-- Each line is read on its own. -/
theorem pieceRules_eq (file : Bytes) : pieceRules file = (lines file).flatMap pieceRules :=
  filterMap_pieces (by decide) scanRule scanRule_append_newline rfl file

/-- The line fits the line buffer and holds no NUL, and its text has at most four fields, each of
which fits its buffer. -/
structure FitsBuffers (l : Bytes) : Prop where
  line : l.length ≤ 511
  noNul : (0 : UInt8) ∉ l
  four : (words (l.takeWhile fun b => b ≠ 0x23)).length ≤ 4
  fields : FitsWidths [127, 127, 63, 255] (words (l.takeWhile fun b => b ≠ 0x23))

theorem scanRule_of_fitsBuffers {l : Bytes} (hl : FitsBuffers l) : scanRule l = lineRule l := by
  have hcut : cutComment l = l.takeWhile fun b => b ≠ 0x23 := by
    have hall : l.takeWhile (fun b => b ≠ 0) = l := by
      rw [List.takeWhile_eq_self_iff]
      intro b hb
      have hne : b ≠ 0 := fun heq => hl.noNul (heq ▸ hb)
      simpa using hne
    rw [cutComment, hall]
  have hfour := hl.four
  rw [scanRule, lineRule, hcut, scanFields_eq_words hl.fields]
  generalize words (l.takeWhile fun b => b ≠ 0x23) = ws at hfour ⊢
  match ws, hfour with
  | [], _ | [_], _ | [_, _], _ | [_, _, _], _ | [_, _, _, _], _ => rfl
  | _ :: _ :: _ :: _ :: _ :: _, hfour =>
      simp only [List.length_cons] at hfour
      omega

/-- Where every line fits its buffers, the tool reads the rules of the file. -/
theorem pieceRules_of_fitsBuffers {file : Bytes} (hfits : ∀ l ∈ lines file, FitsBuffers l) :
    pieceRules file = lineRules file := by
  have hline (l : Bytes) (hl : l ∈ lines file) : pieceRules l = [l].filterMap lineRule := by
    by_cases hnil : l = []
    · rw [hnil]
      rfl
    · rw [pieceRules,
        pieces_line (by decide) (newline_not_mem_of_mem_lines hl) (hfits l hl).line hnil,
        List.filterMap_cons, scanRule_of_fitsBuffers (hfits l hl), List.filterMap_cons]
      rfl
  rw [pieceRules_eq, lineRules]
  generalize lines file = ls at hline ⊢
  induction ls with
  | nil => rfl
  | cons l ls ih =>
      rw [List.flatMap_cons, hline l (List.mem_cons_self ..),
        ih fun l' hl' => hline l' (List.mem_cons_of_mem _ hl'), ← List.filterMap_append,
        List.singleton_append]

/-! ### The union -/

/-- The tool writes the union of the policy with the rules of the file, loses nothing, does not
depend on the order of the lines, and adds nothing when it runs again. -/
structure InjectsUnion (pdb : Policydb) (file : Bytes) : Prop where
  union : allows (inject pdb file).pdb = allows pdb ∪ grantsAll pdb (lineRules file)
  keeps : allows pdb ⊆ allows (inject pdb file).pdb
  order : ∀ file', (lines file').Perm (lines file) →
    allows (inject pdb file').pdb = allows (inject pdb file).pdb
  again : allows (inject (inject pdb file).pdb file).pdb = allows (inject pdb file).pdb

/-- Cutting lines and fields to the buffers loses no access and makes none up, beyond those that the
policy or another rule has anyway. -/
structure CutsNothing (pdb : Policydb) (file : Bytes) : Prop where
  lost : ∀ r ∈ lineRules file, ∀ a ∈ grants pdb r,
    a ∈ allows pdb ∨ ∃ r' ∈ pieceRules file, a ∈ grants pdb r'
  gained : ∀ r ∈ pieceRules file, ∀ a ∈ grants pdb r,
    a ∈ allows pdb ∨ ∃ r' ∈ lineRules file, a ∈ grants pdb r'

theorem cutsNothing_of_fitsBuffers (pdb : Policydb) {file : Bytes}
    (hfits : ∀ l ∈ lines file, FitsBuffers l) : CutsNothing pdb file := by
  have hrules := pieceRules_of_fitsBuffers hfits
  refine ⟨fun r hr a ha => Or.inr ⟨r, ?_, ha⟩, fun r hr a ha => Or.inr ⟨r, ?_, ha⟩⟩
  · rwa [hrules]
  · rwa [← hrules]

theorem allows_inject_perm (pdb : Policydb) {file file' : Bytes}
    (hperm : (lines file').Perm (lines file)) :
    allows (inject pdb file').pdb = allows (inject pdb file).pdb := by
  have hrules : (pieceRules file').Perm (pieceRules file) := by
    rw [pieceRules_eq, pieceRules_eq file]
    exact hperm.flatMap_right pieceRules
  rw [(inject_spec pdb file').2, (inject_spec pdb file).2]
  congr 1
  ext a
  simp only [grantsAll, Set.mem_ofPred_eq, hrules.mem_iff]

theorem allows_inject_again (pdb : Policydb) (file : Bytes) :
    allows (inject (inject pdb file).pdb file).pdb = allows (inject pdb file).pdb := by
  obtain ⟨hsame, hallows⟩ := inject_spec pdb file
  have hgrants : grantsAll (inject pdb file).pdb (pieceRules file) =
      grantsAll pdb (pieceRules file) := by
    rw [grantsAll, grantsAll, grants_of_sameNames hsame]
  rw [(inject_spec (inject pdb file).pdb file).2, hgrants, hallows, Set.union_assoc, Set.union_self]

/-- The tool writes the union exactly where the cuts change no access that counts. -/
theorem injectsUnion_iff_cutsNothing (pdb : Policydb) (file : Bytes) :
    InjectsUnion pdb file ↔ CutsNothing pdb file := by
  have hallows := (inject_spec pdb file).2
  constructor
  · intro hunion
    have heq := hunion.union
    rw [hallows] at heq
    constructor
    · intro r hr a ha
      have hmem : a ∈ allows pdb ∪ grantsAll pdb (pieceRules file) := by
        rw [heq]
        exact Or.inr ⟨r, hr, ha⟩
      exact hmem
    · intro r hr a ha
      have hmem : a ∈ allows pdb ∪ grantsAll pdb (lineRules file) := by
        rw [← heq]
        exact Or.inr ⟨r, hr, ha⟩
      exact hmem
  · intro hcuts
    refine ⟨?_, ?_, fun file' hperm => allows_inject_perm pdb hperm, allows_inject_again pdb file⟩
    · rw [hallows]
      apply Set.Subset.antisymm
      · apply Set.union_subset Set.subset_union_left
        intro a ha
        obtain ⟨r, hr, ha⟩ := ha
        exact hcuts.gained r hr a ha
      · apply Set.union_subset Set.subset_union_left
        intro a ha
        obtain ⟨r, hr, ha⟩ := ha
        exact hcuts.lost r hr a ha
    · rw [hallows]
      exact Set.subset_union_left

/-- Two types and a class of two permissions, with an empty allow relation. -/
def smallPolicy : Policydb where
  pTypes := fun name => if name = [0x61] then some 1 else if name = [0x62] then some 2 else none
  pClasses := fun name =>
    if name = [0x63] then
      some
        { value := 1
          permissions := fun perm =>
            if perm = [0x72] then some ⟨1, by decide⟩
            else if perm = [0x77] then some ⟨2, by decide⟩
            else none
          comdatum := none }
    else none
  teAvtab := fun _ => none

/-- The permissions `r,r,…,r,w`, 257 characters. -/
def longPerms : Bytes := (List.replicate 128 [0x72, 0x2C]).flatten ++ [0x77]

/-- The line `a b c r,r,…,r,w`. -/
def longRule : Bytes := [0x61, 0x20, 0x62, 0x20, 0x63, 0x20] ++ longPerms ++ [newline]

/-- The last permission of a long list is lost, and the tool counts the rule as applied. -/
theorem inject_loses_permission :
    (inject smallPolicy longRule).added = 1 ∧ (inject smallPolicy longRule).bad = 0 ∧
      ¬ InjectsUnion smallPolicy longRule := by
  refine ⟨by decide +kernel, by decide +kernel, ?_⟩
  intro hunion
  have hmem : (⟨1, 2, 1, 1⟩ : Access) ∈ grantsAll smallPolicy (lineRules longRule) := by
    have hrules : lineRules longRule = [⟨[0x61], [0x62], [0x63], longPerms⟩] := by decide +kernel
    have hresolves : ∃ cls, smallPolicy.pClasses [0x63] = some cls ∧ cls.value = 1 ∧
        (∀ name ∈ permNames longPerms, (searchPerm cls name).isSome) ∧
        ∃ p, searchPerm cls [0x77] = some p ∧ 2 = p.value :=
      ⟨_, rfl, rfl, by decide +kernel, _, rfl, rfl⟩
    obtain ⟨cls, hcls, hvalue, hfound, p, hp, hbit⟩ := hresolves
    refine ⟨_, by rw [hrules]; exact List.mem_singleton_self _, cls, rfl, rfl, hcls, hvalue, hfound,
      [0x77], by decide, p, hp, hbit⟩
  have hall : (⟨1, 2, 1, 1⟩ : Access) ∈ allows (inject smallPolicy longRule).pdb := by
    rw [hunion.union]
    exact Or.inr hmem
  obtain ⟨data, hdata, hbit⟩ := hall
  have hwritten :
      (inject smallPolicy longRule).pdb.teAvtab ⟨1, 2, 1, avtabAllowed⟩ = some 1#32 := by
    decide +kernel
  dsimp only at hdata hbit
  rw [hwritten, Option.some.injEq] at hdata
  rw [← hdata] at hbit
  exact absurd hbit (by decide)

end LineageA1000.Sepolicy
