import LineageA1000.Lib.CText
import Mathlib.Data.Set.Basic

/-!
# The policy and one allow rule

The parts of a `policydb_t` that `a1000_sepolicy_inject.c` looks at: the type and class tables and
the access vectors, as finite maps. `add_allow` resolves the names of a rule and ors its permission
bits into the vector of its key; the main lemma says that the allow relation grows by exactly the
rule's accesses.
-/

namespace LineageA1000.Sepolicy

open Bytes

/-- `hashtab_search`. -/
abbrev Hashtab (α : Type) := Bytes → Option α

/-- A permission's number in its class or common, from which its bit is made. -/
structure PermDatum where
  value : Nat
  range : 1 ≤ value ∧ value ≤ 32

structure ClassDatum where
  value : Nat
  permissions : Hashtab PermDatum
  comdatum : Option (Hashtab PermDatum)

structure AvtabKey where
  sourceType : Nat
  targetType : Nat
  targetClass : Nat
  specified : Nat
  deriving DecidableEq

/-- `AVTAB_ALLOWED`. -/
def avtabAllowed : Nat := 1

structure Policydb where
  pTypes : Hashtab Nat
  pClasses : Hashtab ClassDatum
  teAvtab : AvtabKey → Option (BitVec 32)

/-- The stores into the access vector of a key. -/
def Policydb.setAvtab (pdb : Policydb) (key : AvtabKey) (data : BitVec 32) : Policydb :=
  { pdb with teAvtab := fun k => if k = key then some data else pdb.teAvtab k }

/-- A line of the rules file; the permissions are one comma-separated text. -/
structure Rule where
  source : Bytes
  target : Bytes
  cls : Bytes
  perms : Bytes
  deriving DecidableEq

/-- What `add_allow` reports on `stderr`. -/
inductive RuleError
  | noType (name : Bytes)
  | noClass (name : Bytes)
  | noPerm (name cls : Bytes)
  deriving DecidableEq

/-- A permission of the class itself, or else of its common. -/
def searchPerm (cls : ClassDatum) (name : Bytes) : Option PermDatum :=
  match cls.permissions name with
  | some p => some p
  | none => cls.comdatum.bind fun common => common name

def permBit (cls : ClassDatum) (name : Bytes) : Option (BitVec 32) :=
  (searchPerm cls name).map fun p => 1#32 <<< (p.value - 1)

/-- The tokens of `strtok_r` with the delimiter `,`. -/
def permNames (perms : Bytes) : List Bytes := (perms.splitOn 0x2C).filter fun tok => tok ≠ []

/-- The loop over the tokens, with `bits` gathered so far. -/
def permBits (c : Bytes) (cls : ClassDatum) : BitVec 32 → List Bytes → Except RuleError (BitVec 32)
  | bits, [] => .ok bits
  | bits, tok :: toks =>
      match permBit cls tok with
      | none => .error (.noPerm tok c)
      | some bit => permBits c cls (bits ||| bit) toks

/-- `add_allow`; an error is its `-1` and leaves the policy as it is. -/
def addAllow (pdb : Policydb) (r : Rule) : Except RuleError Policydb :=
  match pdb.pTypes r.source, pdb.pTypes r.target, pdb.pClasses r.cls with
  | none, _, _ => .error (.noType r.source)
  | _, none, _ => .error (.noType r.target)
  | _, _, none => .error (.noClass r.cls)
  | some src, some tgt, some cls =>
      -- `snprintf(buf, sizeof buf, "%s", perms)`
      match permBits r.cls cls 0#32 (permNames (r.perms.take 511)) with
      | .error e => .error e
      | .ok bits =>
          let key := ⟨src, tgt, cls.value, avtabAllowed⟩
          match pdb.teAvtab key with
          | some data =>
              if data &&& bits = bits then .ok pdb else .ok (pdb.setAvtab key (data ||| bits))
          | none => .ok (pdb.setAvtab key bits)

/-! ### The allow relation -/

/-- One allowed access: source type, target type, class, and the bit of the permission. -/
structure Access where
  source : Nat
  target : Nat
  cls : Nat
  bit : Nat
  deriving DecidableEq

/-- The allow relation of a policy. -/
def allows (pdb : Policydb) : Set Access :=
  {a | ∃ data, pdb.teAvtab ⟨a.source, a.target, a.cls, avtabAllowed⟩ = some data ∧
    data.getLsbD a.bit = true}

/-- The accesses a rule stands for in a policy: none unless all its names resolve. -/
def grants (pdb : Policydb) (r : Rule) : Set Access :=
  {a | ∃ cls, pdb.pTypes r.source = some a.source ∧ pdb.pTypes r.target = some a.target ∧
    pdb.pClasses r.cls = some cls ∧ cls.value = a.cls ∧
    (∀ name ∈ permNames r.perms, (searchPerm cls name).isSome) ∧
    ∃ name ∈ permNames r.perms, ∃ p, searchPerm cls name = some p ∧ a.bit + 1 = p.value}

/-- The two policies have the same names. -/
def SameNames (pdb pdb' : Policydb) : Prop :=
  pdb'.pTypes = pdb.pTypes ∧ pdb'.pClasses = pdb.pClasses

theorem grants_of_sameNames {pdb pdb' : Policydb} (h : SameNames pdb pdb') :
    grants pdb' = grants pdb := by
  funext r
  rw [grants, grants, h.1, h.2]

theorem getLsbD_permBit (p : PermDatum) (i : Nat) :
    (1#32 <<< (p.value - 1)).getLsbD i = decide (i + 1 = p.value) := by
  have hrange := p.range
  rw [BitVec.getLsbD_shiftLeft, BitVec.getLsbD_one]
  by_cases heq : i + 1 = p.value
  · rw [decide_eq_true heq]
    simp only [Bool.and_eq_true, decide_eq_true_eq, Bool.not_eq_true', decide_eq_false_iff_not]
    omega
  · rw [decide_eq_false heq]
    simp only [Bool.and_eq_false_iff, decide_eq_false_iff_not, Bool.not_eq_false',
      decide_eq_true_eq]
    omega

/-- The gathered bits are those of the listed permissions, and all of them were found. -/
theorem permBits_eq_ok {c : Bytes} {cls : ClassDatum} {toks : List Bytes} {bits bits' : BitVec 32}
    (hbits : permBits c cls bits toks = .ok bits') :
    (∀ name ∈ toks, (searchPerm cls name).isSome) ∧
      ∀ i, bits'.getLsbD i = true ↔ bits.getLsbD i = true ∨
        ∃ name ∈ toks, ∃ p, searchPerm cls name = some p ∧ i + 1 = p.value := by
  induction toks generalizing bits with
  | nil =>
      cases hbits
      refine ⟨fun _ hmem => absurd hmem List.not_mem_nil, fun i => ?_⟩
      simp only [List.not_mem_nil, false_and, exists_false, or_false]
  | cons tok toks ih =>
      rw [permBits, permBit] at hbits
      cases hsearch : searchPerm cls tok with
      | none =>
          rw [hsearch] at hbits
          cases hbits
      | some p =>
          rw [hsearch] at hbits
          obtain ⟨hfound, hlsb⟩ := ih hbits
          refine ⟨List.forall_mem_cons.2 ⟨by rw [hsearch]; rfl, hfound⟩, fun i => ?_⟩
          rw [hlsb, BitVec.getLsbD_or, getLsbD_permBit]
          simp only [Bool.or_eq_true, decide_eq_true_eq, List.mem_cons, exists_eq_or_imp, hsearch,
            Option.some.injEq, exists_eq_left']
          tauto

theorem permBits_isError {c : Bytes} {cls : ClassDatum} {toks : List Bytes} {bits : BitVec 32}
    {e : RuleError} (hbits : permBits c cls bits toks = .error e) :
    ∃ name ∈ toks, searchPerm cls name = none ∧ e = .noPerm name c := by
  induction toks generalizing bits with
  | nil => cases hbits
  | cons tok toks ih =>
      rw [permBits, permBit] at hbits
      cases hsearch : searchPerm cls tok with
      | none =>
          rw [hsearch] at hbits
          cases hbits
          exact ⟨tok, List.mem_cons_self .., hsearch, rfl⟩
      | some p =>
          rw [hsearch] at hbits
          obtain ⟨name, hmem, hnone⟩ := ih hbits
          exact ⟨name, List.mem_cons_of_mem _ hmem, hnone⟩

theorem allows_setAvtab (pdb : Policydb) (src tgt cls : Nat) (data : BitVec 32) :
    allows (pdb.setAvtab ⟨src, tgt, cls, avtabAllowed⟩ data) =
      {a | if a.source = src ∧ a.target = tgt ∧ a.cls = cls then data.getLsbD a.bit = true
        else a ∈ allows pdb} := by
  ext a
  simp only [allows, Policydb.setAvtab, AvtabKey.mk.injEq, and_true, Set.mem_ofPred_eq]
  split
  · simp only [Option.some.injEq, exists_eq_left']
  · rfl

/-! ### One rule -/

section Rule

variable {pdb : Policydb} {r : Rule}

/-- A rule that is not applied stands for no access: one of its names does not resolve. -/
theorem grants_eq_empty_of_error (hlen : r.perms.length ≤ 511) {e : RuleError}
    (herror : addAllow pdb r = .error e) : grants pdb r = ∅ := by
  rw [Set.eq_empty_iff_forall_notMem]
  rintro a ⟨cls, hsrc, htgt, hcls, -, hfound, -⟩
  rw [addAllow, hsrc, htgt, hcls, List.take_of_length_le hlen] at herror
  dsimp only at herror
  split at herror
  · rename_i hbits
    obtain ⟨name, hmem, hnone, -⟩ := permBits_isError hbits
    have hsome := hfound name hmem
    rw [hnone] at hsome
    cases hsome
  · split at herror
    · split at herror <;> cases herror
    · cases herror

/-- A rule whose names resolve stands for the bits of its permissions under its key. -/
theorem mem_grants_iff {src tgt : Nat} {cls : ClassDatum} {bits : BitVec 32}
    (hsrc : pdb.pTypes r.source = some src) (htgt : pdb.pTypes r.target = some tgt)
    (hcls : pdb.pClasses r.cls = some cls)
    (hbits : permBits r.cls cls 0#32 (permNames r.perms) = .ok bits) (a : Access) :
    a ∈ grants pdb r ↔
      (a.source = src ∧ a.target = tgt ∧ a.cls = cls.value) ∧ bits.getLsbD a.bit = true := by
  obtain ⟨hfound, hlsb⟩ := permBits_eq_ok hbits
  rw [hlsb, BitVec.getLsbD_zero]
  simp only [grants, hsrc, htgt, hcls, Option.some.injEq, Set.mem_ofPred_eq, Bool.false_eq_true,
    false_or]
  constructor
  · rintro ⟨c, h1, h2, rfl, h3, -, h4⟩
    exact ⟨⟨h1.symm, h2.symm, h3.symm⟩, h4⟩
  · intro ⟨⟨h1, h2, h3⟩, h4⟩
    exact ⟨cls, h1.symm, h2.symm, rfl, h3.symm, hfound, h4⟩

theorem mem_allows_iff {src tgt cls : Nat} {a : Access}
    (hkey : a.source = src ∧ a.target = tgt ∧ a.cls = cls) :
    a ∈ allows pdb ↔ ∃ data, pdb.teAvtab ⟨src, tgt, cls, avtabAllowed⟩ = some data ∧
      data.getLsbD a.bit = true := by
  obtain ⟨rfl, rfl, rfl⟩ := hkey
  rfl

/-- Storing what was there together with new bits adds the accesses of these bits. -/
theorem allows_setAvtab_union {src tgt cls : Nat} {data bits : BitVec 32} {new : Set Access}
    (hdata : ∀ a : Access, a.source = src ∧ a.target = tgt ∧ a.cls = cls →
      (data.getLsbD a.bit = true ↔ a ∈ allows pdb ∨ bits.getLsbD a.bit = true))
    (hnew : ∀ a, a ∈ new ↔
      (a.source = src ∧ a.target = tgt ∧ a.cls = cls) ∧ bits.getLsbD a.bit = true) :
    allows (pdb.setAvtab ⟨src, tgt, cls, avtabAllowed⟩ data) = allows pdb ∪ new := by
  ext a
  rw [allows_setAvtab, Set.mem_union, hnew, Set.mem_ofPred_eq]
  split
  · rename_i hkey
    rw [hdata a hkey]
    simp only [hkey, and_self, true_and]
  · rename_i hkey
    simp only [hkey, false_and, or_false]

/-- A rule that is applied adds exactly its accesses and changes no name. -/
theorem addAllow_eq_ok (hlen : r.perms.length ≤ 511) {pdb' : Policydb}
    (hok : addAllow pdb r = .ok pdb') :
    SameNames pdb pdb' ∧ allows pdb' = allows pdb ∪ grants pdb r := by
  rw [addAllow, List.take_of_length_le hlen] at hok
  split at hok
  · cases hok
  · cases hok
  · cases hok
  · rename_i src tgt cls hsrc htgt hcls
    split at hok
    · cases hok
    · rename_i bits hbits
      have hgrants := mem_grants_iff hsrc htgt hcls hbits
      dsimp only at hok
      split at hok
      · rename_i data hdata
        have hold (a : Access) (hkey : a.source = src ∧ a.target = tgt ∧ a.cls = cls.value) :
            a ∈ allows pdb ↔ data.getLsbD a.bit = true := by
          rw [mem_allows_iff hkey]
          simp only [hdata, Option.some.injEq, exists_eq_left']
        split at hok
        · -- all bits were there already
          rename_i hthere
          cases hok
          refine ⟨⟨rfl, rfl⟩, (Set.union_eq_left.2 fun a ha => ?_).symm⟩
          obtain ⟨hkey, hbit⟩ := (hgrants a).1 ha
          rw [hold a hkey]
          rw [← hthere, BitVec.getLsbD_and, Bool.and_eq_true] at hbit
          exact hbit.1
        · cases hok
          refine ⟨⟨rfl, rfl⟩, allows_setAvtab_union (fun a hkey => ?_) hgrants⟩
          rw [hold a hkey, BitVec.getLsbD_or, Bool.or_eq_true]
      · rename_i hnone
        cases hok
        refine ⟨⟨rfl, rfl⟩, allows_setAvtab_union (fun a hkey => ?_) hgrants⟩
        rw [mem_allows_iff hkey]
        simp only [hnone, reduceCtorEq, false_and, exists_false, false_or]

end Rule

end LineageA1000.Sepolicy
