import LineageA1000.Sepolicy.Inject

/-!
# What the tool says about the lines

The exit status of `a1000_sepolicy_inject.c` is that of its error total, and what enters the total
are the rules that `add_allow` refuses. A piece of a line that does not scan into four fields enters
nothing: it is skipped as an empty line is. So a line can be lost in silence, whole or in part.
-/

namespace LineageA1000.Sepolicy

open Bytes

/-- What `main` returns once the policy is written. -/
def exitStatus (st : Tool) : Nat := if st.bad ≠ 0 then 1 else 0

/-- The rule's names are all known. -/
def Resolves (pdb : Policydb) (r : Rule) : Prop :=
  ∃ src tgt cls, pdb.pTypes r.source = some src ∧ pdb.pTypes r.target = some tgt ∧
    pdb.pClasses r.cls = some cls ∧ ∀ name ∈ permNames r.perms, (searchPerm cls name).isSome

theorem resolves_of_sameNames {pdb pdb' : Policydb} (h : SameNames pdb pdb') (r : Rule) :
    Resolves pdb' r ↔ Resolves pdb r := by
  unfold Resolves
  rw [h.1, h.2]

/-- `add_allow` refuses exactly the rules with an unknown name. -/
theorem addAllow_resolves {pdb : Policydb} {r : Rule} (hlen : r.perms.length ≤ 511) :
    (∃ pdb', addAllow pdb r = .ok pdb') ↔ Resolves pdb r := by
  rw [addAllow, List.take_of_length_le hlen]
  constructor
  · rintro ⟨pdb', hok⟩
    split at hok
    · cases hok
    · cases hok
    · cases hok
    · rename_i src tgt cls hsrc htgt hcls
      split at hok
      · cases hok
      · rename_i bits hbits
        exact ⟨src, tgt, cls, hsrc, htgt, hcls, (permBits_eq_ok hbits).1⟩
  · rintro ⟨src, tgt, cls, hsrc, htgt, hcls, hfound⟩
    rw [hsrc, htgt, hcls]
    dsimp only
    split
    · rename_i hbits
      obtain ⟨name, hmem, hnone, -⟩ := permBits_isError hbits
      have hsome := hfound name hmem
      rw [hnone] at hsome
      cases hsome
    · split
      · split
        · exact ⟨_, rfl⟩
        · exact ⟨_, rfl⟩
      · exact ⟨_, rfl⟩

/-! ### Rule by rule -/

/-- What the main loop does with a rule that it has read. -/
def applyRule (st : Tool) (r : Rule) : Tool :=
  match addAllow st.pdb r with
  | .error _ => { st with bad := st.bad + 1 }
  | .ok pdb => { st with pdb := pdb, added := st.added + 1 }

/-- The tool once it has read some lines. -/
def afterLines (pdb : Policydb) (ls : List Bytes) : Tool :=
  (ls.flatMap pieceRules).foldl applyRule ⟨pdb, 0, 0⟩

theorem foldl_ruleStep (ps : List Bytes) (st : Tool) :
    ps.foldl ruleStep st = (ps.filterMap scanRule).foldl applyRule st := by
  induction ps generalizing st with
  | nil => rfl
  | cons p ps ih =>
      rw [List.foldl_cons, ih, List.filterMap_cons]
      unfold ruleStep
      cases scanRule p with
      | none => rfl
      | some r => rfl

theorem inject_eq_afterLines (pdb : Policydb) (file : Bytes) :
    inject pdb file = afterLines pdb (lines file) := by
  show (pieces 511 file).foldl ruleStep _ = _
  rw [foldl_ruleStep]
  show (pieceRules file).foldl applyRule _ = _
  rw [pieceRules_eq]
  rfl

theorem length_perms_of_mem_pieceRules {l : Bytes} {r : Rule} (hr : r ∈ pieceRules l) :
    r.perms.length ≤ 511 := by
  obtain ⟨piece, -, hscan⟩ := List.mem_filterMap.1 hr
  exact length_perms_scanRule hscan

theorem applyRule_spec {pdb : Policydb} {st : Tool} (hst : SameNames pdb st.pdb) {r : Rule}
    (hlen : r.perms.length ≤ 511) :
    SameNames pdb (applyRule st r).pdb ∧
      (Resolves pdb r → (applyRule st r).bad = st.bad) ∧
      (¬ Resolves pdb r → (applyRule st r).bad = st.bad + 1) := by
  rw [← resolves_of_sameNames hst r, ← addAllow_resolves hlen]
  unfold applyRule
  cases hadd : addAllow st.pdb r with
  | error e =>
      refine ⟨hst, ?_, fun _ => rfl⟩
      intro ⟨pdb', hok⟩
      cases hok
  | ok pdb' =>
      obtain ⟨hsame, -⟩ := addAllow_eq_ok hlen hadd
      exact ⟨⟨hsame.1.trans hst.1, hsame.2.trans hst.2⟩, fun _ => rfl,
        fun hno => absurd ⟨pdb', rfl⟩ hno⟩

/-- The total never falls, and it grows over some rules exactly when one of them is refused. -/
theorem foldl_applyRule_bad {pdb : Policydb} {st : Tool} (hst : SameNames pdb st.pdb)
    {rs : List Rule} (hlen : ∀ r ∈ rs, r.perms.length ≤ 511) :
    SameNames pdb (rs.foldl applyRule st).pdb ∧ st.bad ≤ (rs.foldl applyRule st).bad ∧
      (st.bad < (rs.foldl applyRule st).bad ↔ ∃ r ∈ rs, ¬ Resolves pdb r) := by
  induction rs generalizing st with
  | nil => exact ⟨hst, le_rfl, fun h => absurd h (lt_irrefl _), fun ⟨_, hr, _⟩ => nomatch hr⟩
  | cons r rs ih =>
      obtain ⟨hr, hrs⟩ := List.forall_mem_cons.1 hlen
      obtain ⟨hsame, hkeep, hcount⟩ := applyRule_spec hst hr
      obtain ⟨hfinal, hle, hlt⟩ := ih hsame hrs
      rw [List.foldl_cons, List.exists_mem_cons_iff]
      by_cases hres : Resolves pdb r
      · have hbad := hkeep hres
        rw [hbad] at hle hlt
        refine ⟨hfinal, hle, hlt.trans ?_⟩
        exact ⟨Or.inr, fun h => h.resolve_left fun hno => hno hres⟩
      · have hbad := hcount hres
        rw [hbad] at hle
        refine ⟨hfinal, by omega, fun _ => Or.inl hres, fun _ => by omega⟩

theorem mem_pieceRules_perms (ls : List Bytes) :
    ∀ r ∈ ls.flatMap pieceRules, r.perms.length ≤ 511 := by
  intro r hr
  obtain ⟨l, -, hl⟩ := List.mem_flatMap.1 hr
  exact length_perms_of_mem_pieceRules hl

theorem afterLines_bad (pdb : Policydb) (front back : List Bytes) :
    (afterLines pdb front).bad ≤ (afterLines pdb (front ++ back)).bad ∧
      ((afterLines pdb front).bad < (afterLines pdb (front ++ back)).bad ↔
        ∃ l ∈ back, ∃ r ∈ pieceRules l, ¬ Resolves pdb r) := by
  have hstart : SameNames pdb (Tool.mk pdb 0 0).pdb := ⟨rfl, rfl⟩
  have hnames := (foldl_applyRule_bad hstart (mem_pieceRules_perms front)).1
  obtain ⟨-, hle, hlt⟩ := foldl_applyRule_bad hnames (mem_pieceRules_perms back)
  have hsplit : afterLines pdb (front ++ back) =
      (back.flatMap pieceRules).foldl applyRule (afterLines pdb front) := by
    unfold afterLines
    rw [List.flatMap_append, List.foldl_append]
  rw [hsplit]
  refine ⟨hle, hlt.trans ?_⟩
  constructor
  · intro ⟨r, hr, hres⟩
    obtain ⟨l, hl, hmem⟩ := List.mem_flatMap.1 hr
    exact ⟨l, hl, r, hmem, hres⟩
  · intro ⟨l, hl, r, hr, hres⟩
    exact ⟨r, List.mem_flatMap.2 ⟨l, hl, hr⟩, hres⟩

/-! ### Line by line -/

/-- The line says something in front of a comment. -/
def HasText (l : Bytes) : Prop := words (l.takeWhile fun b => b ≠ 0x23) ≠ []

instance (l : Bytes) : Decidable (HasText l) := instDecidableNot

/-- The error total grows while the line is read, and the run ends as failed. -/
def Counted (pdb : Policydb) (file : Bytes) (front : List Bytes) (l : Bytes) : Prop :=
  (afterLines pdb front).bad < (afterLines pdb (front ++ [l])).bad ∧
    exitStatus (inject pdb file) = 1

/-- The line is one rule, is read as this rule and no other, and all that the rule stands for is
allowed in the end. -/
def Applied (pdb : Policydb) (file l : Bytes) : Prop :=
  ∃ r, lineRule l = some r ∧ pieceRules l = [r] ∧ Resolves pdb r ∧
    grants pdb r ⊆ allows (inject pdb file).pdb

/-- Every line with a text is applied or counted. -/
def NothingSilent (pdb : Policydb) (file : Bytes) : Prop :=
  ∀ front l back, lines file = front ++ l :: back → HasText l →
    Counted pdb file front l ∨ Applied pdb file l

/-- Every line with a text holds, as the tool cuts it, a rule with an unknown name, or it is one
rule, which the cuts leave as it is. -/
def LinesRead (pdb : Policydb) (file : Bytes) : Prop :=
  ∀ l ∈ lines file, HasText l →
    (∃ r ∈ pieceRules l, ¬ Resolves pdb r) ∨ ∃ r, lineRule l = some r ∧ pieceRules l = [r]

/-- A line of four words that fits the buffers is left as it is. -/
theorem pieceRules_eq_singleton {l : Bytes} (hl : newline ∉ l) (hfits : FitsBuffers l)
    (hfour : (words (l.takeWhile fun b => b ≠ 0x23)).length = 4) :
    ∃ r, lineRule l = some r ∧ pieceRules l = [r] := by
  have hne : l ≠ [] := by
    rintro rfl
    exact absurd hfour (by decide)
  have hrule : ∃ r, lineRule l = some r := by
    unfold lineRule
    generalize words (l.takeWhile fun b => b ≠ 0x23) = ws at hfour ⊢
    match ws, hfour with
    | [s, t, c, p], _ => exact ⟨_, rfl⟩
  obtain ⟨r, hr⟩ := hrule
  refine ⟨r, hr, ?_⟩
  rw [pieceRules, pieces_line (by decide) hl hfits.line hne, List.filterMap_cons,
    scanRule_of_fitsBuffers hfits, hr]
  rfl

theorem linesRead_of_fitsBuffers (pdb : Policydb) {file : Bytes}
    (hfits : ∀ l ∈ lines file, HasText l →
      FitsBuffers l ∧ (words (l.takeWhile fun b => b ≠ 0x23)).length = 4) :
    LinesRead pdb file := by
  intro l hl htext
  obtain ⟨hbuffers, hfour⟩ := hfits l hl htext
  exact Or.inr (pieceRules_eq_singleton (newline_not_mem_of_mem_lines hl) hbuffers hfour)

theorem counted_iff {pdb : Policydb} {file : Bytes} {front back : List Bytes} {l : Bytes}
    (hlines : lines file = front ++ l :: back) :
    Counted pdb file front l ↔ ∃ r ∈ pieceRules l, ¬ Resolves pdb r := by
  have hgrows : (afterLines pdb front).bad < (afterLines pdb (front ++ [l])).bad ↔
      ∃ r ∈ pieceRules l, ¬ Resolves pdb r := by
    rw [(afterLines_bad pdb front [l]).2]
    simp only [List.mem_singleton, exists_eq_left]
  constructor
  · exact fun hcounted => hgrows.1 hcounted.1
  · intro hunknown
    have hlt := hgrows.2 hunknown
    have hle := (afterLines_bad pdb (front ++ [l]) back).1
    rw [List.append_assoc, List.singleton_append, ← hlines, ← inject_eq_afterLines] at hle
    refine ⟨hlt, ?_⟩
    unfold exitStatus
    rw [if_pos (by omega)]

/-- **What is skipped is not counted.** Every line with a text is applied in full or counted exactly
when every such line holds an unknown name where the tool looks, or is one rule that the cuts leave
as it is. -/
theorem nothingSilent_iff_linesRead (pdb : Policydb) (file : Bytes) :
    NothingSilent pdb file ↔ LinesRead pdb file := by
  constructor
  · intro hsilent l hl htext
    obtain ⟨front, back, hlines⟩ := List.append_of_mem hl
    rcases hsilent front l back hlines htext with hcounted | ⟨r, hrule, hpieces, -⟩
    · exact Or.inl ((counted_iff hlines).1 hcounted)
    · exact Or.inr ⟨r, hrule, hpieces⟩
  · intro hread front l back hlines htext
    have hl : l ∈ lines file := by
      rw [hlines]
      exact List.mem_append_right _ List.mem_cons_self
    rcases hread l hl htext with hunknown | ⟨r, hrule, hpieces⟩
    · exact Or.inl ((counted_iff hlines).2 hunknown)
    · by_cases hres : Resolves pdb r
      · refine Or.inr ⟨r, hrule, hpieces, hres, ?_⟩
        have hmem : r ∈ pieceRules file := by
          rw [pieceRules_eq]
          exact List.mem_flatMap.2 ⟨l, hl, hpieces ▸ List.mem_singleton_self r⟩
        rw [(inject_spec pdb file).2]
        exact fun a ha => Or.inr ⟨r, hmem, ha⟩
      · refine Or.inl ((counted_iff hlines).2 ⟨r, ?_, hres⟩)
        rw [hpieces]
        exact List.mem_singleton_self r

/-- A line that lacks its permissions is neither applied nor counted. -/
theorem short_line_is_silent :
    (inject smallPolicy [0x61, 0x20, 0x62, 0x20, 0x63, newline]).added = 0 ∧
      exitStatus (inject smallPolicy [0x61, 0x20, 0x62, 0x20, 0x63, newline]) = 0 ∧
      ¬ NothingSilent smallPolicy [0x61, 0x20, 0x62, 0x20, 0x63, newline] := by
  refine ⟨by decide, by decide, fun hsilent => ?_⟩
  have hlines : lines [0x61, 0x20, 0x62, 0x20, 0x63, newline] =
      [] ++ [0x61, 0x20, 0x62, 0x20, 0x63] :: [[]] := by decide
  rcases hsilent _ _ _ hlines (by decide) with ⟨-, hstatus⟩ | ⟨r, hrule, -⟩
  · exact absurd hstatus (by decide)
  · have hnone : lineRule [0x61, 0x20, 0x62, 0x20, 0x63] = none := by decide
    rw [hnone] at hrule
    cases hrule

end LineageA1000.Sepolicy
