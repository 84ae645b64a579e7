import LineageA1000.Cpusets.Hierarchy
import LineageA1000.Lib.Labels
import Mathlib.Data.Finset.Lattice.Fold

/-!
# The scheduler's domains

`generate_sched_domains` splits the CPUs into the domains in which the scheduler balances load. It
collects the topmost cpusets that are to be balanced, numbers them, and gives two of them one number
as long as there are two with a CPU in common and different numbers. The unions of the cpusets of
one number are the domains.

The numbers are labels in the sense of `Lib.Labels`, so that the domains are disjoint, hold every
cpuset that is to be balanced, and are as small as they can be. That there are as many as the
counter `ndoms` says keeps the fill loop inside the array and its `BUG_ON` silent.
-/

namespace LineageA1000.Cpusets

variable {Cpu Node : Type*}

/-- The result of the allocations of a rebuild. -/
structure Alloc where
  csa : Bool
  doms : Bool
  dattr : Bool
  deriving DecidableEq

/-! ### Walks -/

/-- `cpuset_for_each_descendant_pre`: the cgroups the walk visits below `p`; it enters a cgroup's
own children unless the body skips them. The first argument bounds the depth. -/
def walkPre (s : System Cpu Node) (enter : CsId → Bool) : Nat → CsId → List CsId
  | 0, _ => []
  | n + 1, p => (s.children p).flatMap fun c => c :: if enter c then walkPre s enter n c else []

def System.descendants (s : System Cpu Node) (enter : CsId → Bool) (p : CsId) : List CsId :=
  walkPre s enter s.created.length p

variable [DecidableEq Cpu]

/-- The body of the walk that fills `csa` does not skip this cgroup's subtree: it is not online, or
it has CPUs and is not to be balanced. -/
def entersCsa (s : System Cpu Node) (c : CsId) : Bool :=
  let cs := s.cpusets c
  ! cs.isOnline || (cs.cpusAllowed ≠ ∅ && ! cs.isSchedLoadBalance)

/-- `csa`, the topmost cpusets that are to be balanced. -/
def System.csa (s : System Cpu Node) : List CsId :=
  (s.descendants (entersCsa s) topCpuset).filter fun c =>
    (s.cpusets c).isOnline && (s.cpusets c).isSchedLoadBalance

def sdAttrInit : Int := -1

def updateDomainAttr (level : Int) (c : Cpuset Cpu Node) : Int :=
  if level < c.relaxDomainLevel then c.relaxDomainLevel else level

/-- `update_domain_attr_tree`. -/
def updateDomainAttrTree (s : System Cpu Node) (level : Int) (root : CsId) : Int :=
  (s.descendants (fun c => ! (s.cpusets c).isOnline || (s.cpusets c).cpusAllowed ≠ ∅) root).foldl
    (fun level c =>
      if (s.cpusets c).isOnline ∧ (s.cpusets c).cpusAllowed ≠ ∅ ∧ (s.cpusets c).isSchedLoadBalance
      then updateDomainAttr level (s.cpusets c) else level) level

/-! ### generate_sched_domains -/

def cpusetsOverlap (s : System Cpu Node) (a b : CsId) : Bool :=
  ! decide (Disjoint (s.cpusets a).cpusAllowed (s.cpusets b).cpusAllowed)

/-- The first two cpusets, in the order of the two outer loops, with a CPU in common and different
numbers. -/
def findOverlap (s : System Cpu Node) (csa : List CsId) (pn : CsId → Int) : Option (CsId × CsId) :=
  csa.findSome? fun a =>
    (csa.find? fun b => decide (pn a ≠ pn b) && cpusetsOverlap s a b).map fun b => (a, b)

/-- The loop at the label `restart`, with the numbers and `ndoms`. It has no result when it does not
end within the rounds it is given. -/
def mergeLoop (s : System Cpu Node) (csa : List CsId) :
    Nat → (CsId → Int) → Nat → Option ((CsId → Int) × Nat)
  | n, pn, ndoms =>
      match findOverlap s csa pn with
      | none => some (pn, ndoms)
      | some (a, b) =>
          match n with
          | 0 => none
          | n + 1 => mergeLoop s csa n (Labels.relabel csa (pn a) (pn b) pn) (ndoms - 1)

/-- The domain and the attribute of one slot. -/
def slot (s : System Cpu Node) (members : List CsId) : Finset Cpu × Int :=
  (members.foldl (fun dp b => dp ∪ (s.cpusets b).cpusAllowed) ∅,
    members.foldl (updateDomainAttrTree s) sdAttrInit)

/-- The loop that fills the slots. A finished cpuset has the number `-1`. A slot behind the last is
not written; the loop then warns and goes on. -/
def fillDoms (s : System Cpu Node) (ndoms : Nat) :
    List CsId → (CsId → Int) → List (Finset Cpu × Int) → List (Finset Cpu × Int)
  | [], _, slots => slots
  | a :: rest, pn, slots =>
      if pn a < 0 then fillDoms s ndoms rest pn slots
      else if slots.length = ndoms then fillDoms s ndoms rest pn slots
      else
        let members := (a :: rest).filter fun b => pn b = pn a
        fillDoms s ndoms rest (fun c => if c ∈ members then -1 else pn c)
          (slots ++ [slot s members])

/-- `generate_sched_domains`. It has no result when the loop at `restart` does not end or the
`BUG_ON` strikes. -/
def generateSchedDomains (s : System Cpu Node) (alloc : Alloc) : Option (SchedDomains Cpu) :=
  if (s.cpusets topCpuset).isSchedLoadBalance then
    if alloc.doms then
      some ⟨1, some [(s.cpusets topCpuset).cpusAllowed],
        if alloc.dattr then some [updateDomainAttrTree s sdAttrInit topCpuset] else none⟩
    else some ⟨1, none, none⟩
  else if ¬ alloc.csa then some ⟨1, none, none⟩
  else
    match mergeLoop s s.csa s.csa.length (fun c => s.csa.idxOf c) s.csa.length with
    | none => none
    | some (pn, ndoms) =>
        if ¬ alloc.doms then some ⟨1, none, none⟩
        else
          let slots := fillDoms s ndoms s.csa pn []
          if slots.length ≠ ndoms then none
          else
            some ⟨ndoms, some (slots.map Prod.fst),
              if alloc.dattr then some (slots.map Prod.snd) else none⟩

/-! ### What the walk visits -/

section Walk

omit [DecidableEq Cpu]

variable {s : System Cpu Node} {enter : CsId → Bool}

theorem walkPre_children (n : Nat) (p : CsId) :
    walkPre s enter (n + 1) p = (s.children p).flatMap fun c =>
      c :: if enter c then walkPre s enter n c else [] := rfl

theorem exists_of_mem_walkPre {n : Nat} {p c : CsId} (h : c ∈ walkPre s enter n p) :
    ∃ d, Up s d p ∧ Relation.ReflTransGen (Up s) c d := by
  induction n generalizing p with
  | zero => cases h
  | succ n ih =>
      simp only [walkPre_children, List.mem_flatMap, List.mem_cons] at h
      obtain ⟨d, hd, rfl | hbelow⟩ := h
      · exact ⟨c, mem_children.1 hd, .refl⟩
      · have hup : Up s d p := mem_children.1 hd
        split at hbelow
        · obtain ⟨e, he, hce⟩ := ih hbelow
          exact ⟨d, hup, hce.tail he⟩
        · cases hbelow

theorem mem_created_of_mem_walkPre {n : Nat} {p c : CsId} (h : c ∈ walkPre s enter n p) :
    c ∈ s.created := by
  obtain ⟨d, hd, hcd⟩ := exists_of_mem_walkPre h
  cases hcd.cases_head with
  | inl heq => exact heq ▸ hd.1
  | inr hstep => exact hstep.choose_spec.1.1

/-- The walk visits no cgroup twice. -/
theorem nodup_walkPre (h : Tree s) (n : Nat) (p : CsId) : (walkPre s enter n p).Nodup := by
  induction n generalizing p with
  | zero => exact List.nodup_nil
  | succ n ih =>
      rw [walkPre_children, List.nodup_flatMap]
      constructor
      · intro c hc
        refine List.nodup_cons.2 ⟨fun hmem => ?_, ?_⟩
        · split at hmem
          · obtain ⟨d, hd, hcd⟩ := exists_of_mem_walkPre hmem
            exact absurd (h.le_of_up hcd) (not_le.2 (h.lt hd))
          · cases hmem
        · split
          · exact ih c
          · exact List.nodup_nil
      · -- Whatever is visited below one child is not below another.
        have habove : ∀ c x : CsId, x ∈ (c :: if enter c then walkPre s enter n c else []) →
            Relation.ReflTransGen (Up s) x c := by
          intro c x hx
          rcases List.mem_cons.1 hx with rfl | hx
          · exact .refl
          · split at hx
            · obtain ⟨d, hd, hxd⟩ := exists_of_mem_walkPre hx
              exact hxd.tail hd
            · cases hx
        have hkids : (s.children p).Nodup := h.nodup.filter _
        refine hkids.pairwise_of_forall_ne ?_
        intro a ha b hb hne
        refine List.disjoint_left.2 fun x hxa hxb => hne ?_
        exact h.unique_child (mem_children.1 ha) (mem_children.1 hb) (habove a x hxa)
          (habove b x hxb)

/-- The cgroups that are younger than a given one: more of them than a walk below it is deep. -/
def younger (s : System Cpu Node) (p : CsId) : List CsId := s.created.filter fun c => p < c

theorem length_younger_lt (h : Tree s) {c p : CsId} (hup : Up s c p) :
    (younger s c).length < (younger s p).length := by
  have hsub : c :: younger s c ⊆ younger s p := by
    intro x hx
    rcases List.mem_cons.1 hx with rfl | hx
    · exact List.mem_filter.2 ⟨hup.1, decide_eq_true (h.lt hup)⟩
    · obtain ⟨hmem, hlt⟩ := List.mem_filter.1 hx
      exact List.mem_filter.2 ⟨hmem, decide_eq_true ((h.lt hup).trans (of_decide_eq_true hlt))⟩
  have hnodup : (c :: younger s c).Nodup := by
    refine List.nodup_cons.2 ⟨fun hmem => ?_, h.nodup.filter _⟩
    exact absurd (of_decide_eq_true (List.mem_filter.1 hmem).2) (lt_irrefl c)
  exact (hnodup.subperm hsub).length_le

/-- A walk that may go as deep as there are younger cgroups goes all the way. -/
theorem walkPre_succ (h : Tree s) {n : Nat} {p : CsId} (hn : (younger s p).length ≤ n) :
    walkPre s enter (n + 1) p = walkPre s enter n p := by
  induction n generalizing p with
  | zero =>
      have hnone : s.children p = [] := by
        refine List.eq_nil_iff_forall_not_mem.2 fun c hc => ?_
        have hlt := length_younger_lt h (mem_children.1 hc)
        omega
      rw [walkPre_children, hnone]
      rfl
  | succ n ih =>
      rw [walkPre_children, walkPre_children]
      refine List.flatMap_congr fun c hc => ?_
      have hlt := length_younger_lt h (mem_children.1 hc)
      rw [ih (p := c) (by omega)]

theorem mem_walkPre_succ {n : Nat} {p a c : CsId} (ha : a ∈ walkPre s enter n p)
    (henter : enter a = true) (hc : Up s c a) : c ∈ walkPre s enter (n + 1) p := by
  induction n generalizing p with
  | zero => cases ha
  | succ n ih =>
      rw [walkPre_children, List.mem_flatMap] at ha ⊢
      obtain ⟨d, hd, ha⟩ := ha
      refine ⟨d, hd, List.mem_cons_of_mem d ?_⟩
      rcases List.mem_cons.1 ha with rfl | ha
      · rw [if_pos henter, walkPre_children, List.mem_flatMap]
        exact ⟨c, mem_children.2 hc, List.mem_cons_self⟩
      · split at ha
        · rename_i hent
          rw [if_pos hent]
          exact ih ha
        · cases ha

variable (h : Tree s)
include h

theorem mem_descendants_of_up {c : CsId} (hc : Up s c topCpuset) :
    c ∈ s.descendants enter topCpuset := by
  have hle : (younger s topCpuset).length ≤ s.created.length := List.length_filter_le _ _
  rw [System.descendants, ← walkPre_succ h hle, walkPre_children, List.mem_flatMap]
  exact ⟨c, mem_children.2 hc, List.mem_cons_self⟩

theorem mem_descendants_of_enter {a c : CsId} (ha : a ∈ s.descendants enter topCpuset)
    (henter : enter a = true) (hc : Up s c a) : c ∈ s.descendants enter topCpuset := by
  have hle : (younger s topCpuset).length ≤ s.created.length := List.length_filter_le _ _
  rw [System.descendants, ← walkPre_succ h hle]
  exact mem_walkPre_succ ha henter hc

/-- Whatever the walk does not visit is below a visited cgroup whose children it skips. -/
theorem visited_or_skipped {c : CsId} (hc : c ∈ s.created) :
    c ∈ s.descendants enter topCpuset ∨
      ∃ a ∈ s.descendants enter topCpuset, enter a = false ∧
        Relation.TransGen (Up s) c a := by
  induction c using Nat.strong_induction_on with
  | _ c ih =>
      obtain ⟨p, hup⟩ := h.exists_up hc
      obtain ⟨q, hq, hlt, hlinked⟩ := h.parent c hc
      obtain rfl : q = p := Option.some.inj (hq.symm.trans hup.2)
      rcases hlinked with rfl | hlinked
      · exact .inl (mem_descendants_of_up h hup)
      rcases ih q hlt hlinked with hvisited | ⟨a, ha, hskip, hqa⟩
      · cases henter : enter q with
        | true => exact .inl (mem_descendants_of_enter h hvisited henter hup)
        | false => exact .inr ⟨q, hvisited, henter, .single hup⟩
      · exact .inr ⟨a, ha, hskip, .head hup hqa⟩

end Walk

/-! ### The numbers -/

section Merge

variable {s : System Cpu Node} {csa : List CsId} {pn : CsId → Int}

/-- The CPUs of a cpuset, as a set. -/
def System.cpuSet (s : System Cpu Node) (c : CsId) : Set Cpu := (s.cpusets c).cpusAllowed

theorem cpusetsOverlap_iff {a b : CsId} :
    cpusetsOverlap s a b = true ↔ Labels.Overlap s.cpuSet a b := by
  rw [cpusetsOverlap, Bool.not_eq_true', decide_eq_false_iff_not, Labels.Overlap,
    Finset.not_disjoint_iff_nonempty_inter, System.cpuSet, System.cpuSet, ← Finset.coe_inter,
    Finset.coe_nonempty]

theorem findOverlap_eq_some {a b : CsId} (h : findOverlap s csa pn = some (a, b)) :
    a ∈ csa ∧ b ∈ csa ∧ pn a ≠ pn b ∧ Labels.Overlap s.cpuSet a b := by
  obtain ⟨x, hx, hfind⟩ := List.exists_of_findSome?_eq_some h
  obtain ⟨y, hy, heq⟩ := Option.map_eq_some_iff.1 hfind
  cases heq
  have hcond := List.find?_some hy
  rw [Bool.and_eq_true, decide_eq_true_iff, cpusetsOverlap_iff] at hcond
  exact ⟨hx, List.mem_of_find?_eq_some hy, hcond.1, hcond.2⟩

theorem findOverlap_eq_none (h : findOverlap s csa pn = none) :
    Labels.Settled (Labels.Overlap s.cpuSet) csa pn := by
  intro a ha b hb hover
  have hfind := List.findSome?_eq_none_iff.1 h a ha
  rw [Option.map_eq_none_iff, List.find?_eq_none] at hfind
  by_contra hne
  apply hfind b hb
  rw [Bool.and_eq_true, decide_eq_true_iff]
  exact ⟨hne, cpusetsOverlap_iff.2 hover⟩

/-- What the loop at `restart` ends with. -/
structure Merged (s : System Cpu Node) (csa : List CsId) (pn : CsId → Int) (ndoms : Nat) : Prop where
  sound : Labels.Sound (Labels.Overlap s.cpuSet) csa pn
  settled : Labels.Settled (Labels.Overlap s.cpuSet) csa pn
  card : (Labels.labels csa pn).card = ndoms
  nonneg : ∀ c ∈ csa, 0 ≤ pn c

/-- The loop ends: every round costs a number, and as many rounds as there are numbers are enough. -/
theorem mergeLoop_spec {n ndoms : Nat} (hn : ndoms ≤ n)
    (hsound : Labels.Sound (Labels.Overlap s.cpuSet) csa pn)
    (hcard : (Labels.labels csa pn).card = ndoms) (hnonneg : ∀ c ∈ csa, 0 ≤ pn c) :
    ∃ pn' ndoms', mergeLoop s csa n pn ndoms = some (pn', ndoms') ∧ Merged s csa pn' ndoms' := by
  induction n generalizing pn ndoms with
  | zero =>
      rw [mergeLoop]
      cases hfind : findOverlap s csa pn with
      | none => exact ⟨pn, ndoms, rfl, hsound, findOverlap_eq_none hfind, hcard, hnonneg⟩
      | some ab =>
          have hpos := Labels.card_labels_pos (f := pn) (findOverlap_eq_some hfind).1
          omega
  | succ n ih =>
      rw [mergeLoop]
      cases hfind : findOverlap s csa pn with
      | none => exact ⟨pn, ndoms, rfl, hsound, findOverlap_eq_none hfind, hcard, hnonneg⟩
      | some ab =>
          obtain ⟨ha, hb, hne, hover⟩ := findOverlap_eq_some hfind
          have hless := Labels.card_labels_relabel ha hb hne
          apply ih (by omega) (hsound.relabel ha hb hover) (by omega)
          intro c hc
          rw [Labels.relabel_of_mem hc]
          split
          · exact hnonneg ab.1 ha
          · exact hnonneg c hc

/-- The numbers the loop starts with are all different. -/
theorem idxOf_inj {a b : CsId} (ha : a ∈ csa) (h : (csa.idxOf a : Int) = csa.idxOf b) : a = b :=
  (List.idxOf_inj ha).1 (Int.ofNat.inj h)

theorem mergeLoop_start (hcsa : csa.Nodup) :
    ∃ pn ndoms, mergeLoop s csa csa.length (fun c => csa.idxOf c) csa.length = some (pn, ndoms) ∧
      Merged s csa pn ndoms := by
  have hinj : ∀ a ∈ csa, ∀ b ∈ csa, (csa.idxOf a : Int) = csa.idxOf b → a = b :=
    fun a ha b _ heq => idxOf_inj ha heq
  exact mergeLoop_spec le_rfl (Labels.sound_of_injOn hinj) (Labels.card_labels_of_injOn hcsa hinj)
    fun c _ => Int.natCast_nonneg _

end Merge

/-! ### The slots -/

section Fill

variable {s : System Cpu Node} {csa : List CsId} {pn : CsId → Int} {ndoms : Nat}

theorem mem_slot {members : List CsId} {p : Cpu} :
    p ∈ (slot s members).1 ↔ ∃ c ∈ members, p ∈ (s.cpusets c).cpusAllowed := by
  have hfold : ∀ (dp : Finset Cpu),
      p ∈ members.foldl (fun dp b => dp ∪ (s.cpusets b).cpusAllowed) dp ↔
        p ∈ dp ∨ ∃ c ∈ members, p ∈ (s.cpusets c).cpusAllowed := by
    induction members with
    | nil => simp
    | cons a members ih =>
        intro dp
        rw [List.foldl_cons, ih, Finset.mem_union, List.exists_mem_cons_iff, or_assoc]
  exact (hfold ∅).trans (by simp)

/-- The slot of a number. -/
def slotOf (s : System Cpu Node) (csa : List CsId) (pn : CsId → Int) (x : Int) : Finset Cpu × Int :=
  slot s (csa.filter fun b => pn b = x)

theorem coe_slotOf (x : Int) :
    ((slotOf s csa pn x).1 : Set Cpu) = Labels.block s.cpuSet csa pn x := by
  ext p
  rw [Finset.mem_coe, slotOf, mem_slot]
  simp only [List.mem_filter, decide_eq_true_iff, and_assoc]
  rfl

/-- The fill loop writes the slots of the numbers, each once, in the order in which it meets them.
Behind `before`, whose numbers have their slots, the cpusets with one of these numbers are finished,
and the others are as they were. -/
theorem fillDoms_spec (hcard : (Labels.labels csa pn).card = ndoms) (hnonneg : ∀ c ∈ csa, 0 ≤ pn c)
    {before rest : List CsId} (hsplit : csa = before ++ rest) {numbers : List Int}
    (hnumbers : numbers.Nodup) (hsub : ∀ x ∈ numbers, x ∈ Labels.labels csa pn)
    (hbefore : ∀ c ∈ before, pn c ∈ numbers) {cur : CsId → Int}
    (hcur : ∀ c ∈ rest, cur c = if pn c ∈ numbers then -1 else pn c) :
    ∃ numbers' : List Int, numbers'.Nodup ∧ numbers'.toFinset = Labels.labels csa pn ∧
      fillDoms s ndoms rest cur (numbers.map (slotOf s csa pn)) =
        numbers'.map (slotOf s csa pn) := by
  induction rest generalizing before numbers cur with
  | nil =>
      refine ⟨numbers, hnumbers, ?_, rfl⟩
      ext x
      rw [List.mem_toFinset]
      refine ⟨hsub x, fun hx => ?_⟩
      obtain ⟨c, hc, rfl⟩ := Labels.mem_labels.1 hx
      rw [hsplit, List.append_nil] at hc
      exact hbefore c hc
  | cons a rest ih =>
      have hsplit' : csa = before ++ [a] ++ rest := by simp [hsplit]
      have ha : a ∈ csa := by simp [hsplit]
      have hcura := hcur a List.mem_cons_self
      rw [fillDoms]
      by_cases hdone : pn a ∈ numbers
      · rw [if_pos hdone] at hcura
        rw [if_pos (by omega)]
        apply ih hsplit' hnumbers hsub
        · intro c hc
          rcases List.mem_append.1 hc with hc | hc
          · exact hbefore c hc
          · rw [List.mem_singleton.1 hc]
            exact hdone
        · exact fun c hc => hcur c (List.mem_cons_of_mem a hc)
      · rw [if_neg hdone] at hcura
        have hfresh : pn a ∈ Labels.labels csa pn := Labels.mem_labels.2 ⟨a, ha, rfl⟩
        -- There is a slot left: the number of `a` has none yet.
        have hlt : numbers.length < ndoms := by
          rw [← hcard, ← List.toFinset_card_of_nodup hnumbers]
          refine Finset.card_lt_card ⟨fun x hx => hsub x (List.mem_toFinset.1 hx), fun hall => ?_⟩
          exact hdone (List.mem_toFinset.1 (hall hfresh))
        rw [hcura, if_neg (not_lt.2 (hnonneg a ha)), if_neg (by rw [List.length_map]; omega)]
        -- All cpusets of that number are still to come.
        have hmembers : (a :: rest).filter (fun b => cur b = pn a) =
            csa.filter fun b => pn b = pn a := by
          have hnone : before.filter (fun b => pn b = pn a) = [] := by
            refine List.filter_eq_nil_iff.2 fun c hc heq => hdone ?_
            rw [← of_decide_eq_true heq]
            exact hbefore c hc
          rw [hsplit, List.filter_append, hnone, List.nil_append]
          refine List.filter_congr fun c hc => ?_
          rw [hcur c hc]
          by_cases hcn : pn c ∈ numbers
          · have hne : pn c ≠ pn a := fun heq => hdone (heq ▸ hcn)
            have hneg : (-1 : Int) ≠ pn a := by
              have := hnonneg a ha
              omega
            simp [hcn, hne, hneg]
          · simp [hcn]
        have hmap : numbers.map (slotOf s csa pn) ++ [slot s ((a :: rest).filter fun b => cur b = pn a)]
            = (numbers ++ [pn a]).map (slotOf s csa pn) := by
          rw [hmembers, List.map_append, List.map_singleton, slotOf]
        simp only [hmap]
        apply ih hsplit'
        · exact List.nodup_append.2 ⟨hnumbers, List.nodup_singleton _,
            fun x hx y hy hxy => hdone (List.mem_singleton.1 hy ▸ hxy ▸ hx)⟩
        · intro x hx
          rcases List.mem_append.1 hx with hx | hx
          · exact hsub x hx
          · rw [List.mem_singleton.1 hx]
            exact hfresh
        · intro c hc
          rcases List.mem_append.1 hc with hc | hc
          · exact List.mem_append_left _ (hbefore c hc)
          · rw [List.mem_singleton.1 hc]
            exact List.mem_append_right _ List.mem_cons_self
        · intro c hc
          have hc' : c ∈ a :: rest := List.mem_cons_of_mem a hc
          rw [hmembers]
          have hccsa : c ∈ csa := by
            rw [hsplit]
            exact List.mem_append_right _ hc'
          by_cases heq : pn c = pn a
          · simp [hccsa, heq]
          · simp only [List.mem_filter, hccsa, true_and, decide_eq_true_iff, heq, if_false,
              List.mem_append, List.mem_singleton, or_false]
            exact hcur c hc'

end Fill

/-! ### The result -/

/-- A cpuset has no CPU that its parent lacks. Of the root's children this kernel's hotplug does not
keep it. -/
def Nested (s : System Cpu Node) : Prop :=
  ∀ c p, Up s c p → p ≠ topCpuset → (s.cpusets c).cpusAllowed ⊆ (s.cpusets p).cpusAllowed

/-- The linked cpusets that are to be balanced. -/
def Balanced (s : System Cpu Node) (c : CsId) : Prop :=
  c ∈ s.created ∧ (s.cpusets c).isSchedLoadBalance = true

/-- The best partial partition: disjoint domains that hold every cpuset to be balanced, each within
one set of whatever disjoint sets these cpusets fit into. -/
structure IsPartition (s : System Cpu Node) (doms : List (Finset Cpu)) : Prop where
  disjoint : doms.Pairwise Disjoint
  covers : ∀ c, Balanced s c → (s.cpusets c).cpusAllowed ≠ ∅ →
    ∃ D ∈ doms, (s.cpusets c).cpusAllowed ⊆ D
  finest : ∀ family : Set (Set Cpu), family.PairwiseDisjoint id →
    (∀ c, Balanced s c → ∃ S ∈ family, s.cpuSet c ⊆ S) → ∀ D ∈ doms, ∃ S ∈ family, (D : Set Cpu) ⊆ S

variable {s : System Cpu Node}

theorem mem_csa (h : Tree s) {c : CsId} :
    c ∈ s.csa ↔ c ∈ s.descendants (entersCsa s) topCpuset ∧ Balanced s c := by
  rw [System.csa, List.mem_filter, Bool.and_eq_true]
  constructor
  · rintro ⟨hmem, -, hbal⟩
    exact ⟨hmem, mem_created_of_mem_walkPre hmem, hbal⟩
  · rintro ⟨hmem, hc, hbal⟩
    exact ⟨hmem, (h.online c).2 (.inr hc), hbal⟩

theorem nodup_csa (h : Tree s) : s.csa.Nodup := (nodup_walkPre h _ _).filter _

/-- The array that is allocated for `csa` is long enough: it has a place for every cpuset, and the
root is not collected. -/
theorem length_csa_lt (h : Tree s) : (s.csa.length : Int) < s.numberOfCpusets := by
  have hsub : s.csa ⊆ s.created := fun c hc => ((mem_csa h).1 hc).2.1
  have hle := ((nodup_csa h).subperm hsub).length_le
  rw [h.number]
  omega

omit [DecidableEq Cpu] in
theorem Nested.subset (h : Tree s) (hnested : Nested s) {c a : CsId} (ha : a ∈ s.created)
    (hca : Relation.TransGen (Up s) c a) :
    (s.cpusets c).cpusAllowed ⊆ (s.cpusets a).cpusAllowed := by
  induction hca using Relation.TransGen.head_induction_on with
  | single hup => exact hnested _ a hup (h.ne_top ha)
  | @head c p hup hpa ih =>
      have hp : p ∈ s.created := by
        obtain ⟨q, hq, -⟩ := Relation.TransGen.head'_iff.1 hpa
        exact hq.1
      exact (hnested c p hup (h.ne_top hp)).trans ih

/-- A cpuset that is to be balanced and has CPUs is within one that was collected. -/
theorem exists_csa_of_balanced (h : Tree s) (hnested : Nested s) {c : CsId} (hc : Balanced s c)
    (hne : (s.cpusets c).cpusAllowed ≠ ∅) :
    ∃ a ∈ s.csa, (s.cpusets c).cpusAllowed ⊆ (s.cpusets a).cpusAllowed := by
  have hwalk : c ∈ s.descendants (entersCsa s) topCpuset ∨ _ := visited_or_skipped h hc.1
  rcases hwalk with hvisited | ⟨a, ha, hskip, hca⟩
  · exact ⟨c, (mem_csa h).2 ⟨hvisited, hc⟩, subset_rfl⟩
  · have hacreated : a ∈ s.created := mem_created_of_mem_walkPre ha
    have hsub := hnested.subset h hacreated hca
    have hbal : (s.cpusets a).isSchedLoadBalance = true := by
      have honline := (h.online a).2 (.inr hacreated)
      have hanonempty : (s.cpusets a).cpusAllowed ≠ ∅ := by
        intro hempty
        rw [hempty, Finset.subset_empty] at hsub
        exact hne hsub
      simpa [entersCsa, honline, hanonempty] using hskip
    exact ⟨a, (mem_csa h).2 ⟨ha, hacreated, hbal⟩, hsub⟩

theorem isPartition_of_merged (h : Tree s) (hnested : Nested s) {pn : CsId → Int} {ndoms : Nat}
    (hmerged : Merged s s.csa pn ndoms) {numbers : List Int} (hnodup : numbers.Nodup)
    (hnumbers : numbers.toFinset = Labels.labels s.csa pn) :
    IsPartition s ((numbers.map (slotOf s s.csa pn)).map Prod.fst) := by
  have hmem : ∀ x ∈ numbers, ∃ c ∈ s.csa, pn c = x := by
    intro x hx
    rw [← List.mem_toFinset, hnumbers] at hx
    exact Labels.mem_labels.1 hx
  constructor
  · rw [List.map_map, List.pairwise_map]
    refine hnodup.imp fun {x y} hxy => ?_
    rw [← Finset.disjoint_coe]
    change Disjoint ((slotOf s s.csa pn x).1 : Set Cpu) (slotOf s s.csa pn y).1
    rw [coe_slotOf, coe_slotOf]
    exact Labels.disjoint_block hmerged.settled hxy
  · intro c hc hne
    obtain ⟨a, ha, hsub⟩ := exists_csa_of_balanced h hnested hc hne
    have hx : pn a ∈ numbers := by
      rw [← List.mem_toFinset, hnumbers]
      exact Labels.mem_labels.2 ⟨a, ha, rfl⟩
    refine ⟨_, List.mem_map_of_mem (List.mem_map_of_mem hx), hsub.trans ?_⟩
    rw [← Finset.coe_subset, coe_slotOf]
    exact (Labels.subset_block ha : s.cpuSet a ⊆ _)
  · intro family hdisjoint hfits D hD
    rw [List.map_map, List.mem_map] at hD
    obtain ⟨x, hx, rfl⟩ := hD
    obtain ⟨c, hc, rfl⟩ := hmem x hx
    have hfit : ∀ a ∈ s.csa, ∃ S ∈ family, s.cpuSet a ⊆ S :=
      fun a ha => hfits a ((mem_csa h).1 ha).2
    obtain ⟨S, hS, hblock⟩ := Labels.block_subset hmerged.sound hdisjoint hfit hc
    refine ⟨S, hS, ?_⟩
    change ((slotOf s s.csa pn (pn c)).1 : Set Cpu) ⊆ S
    rw [coe_slotOf]
    exact hblock

/-- `generate_sched_domains` ends, its `BUG_ON` does not strike, and the domains are the root's CPUs
when the root is to be balanced, the best partial partition otherwise, and null when memory is
short. -/
theorem generateSchedDomains_spec (h : Tree s) (alloc : Alloc) :
    ∃ d, generateSchedDomains s alloc = some d ∧
      ∀ doms, d.doms = some doms → d.ndoms = doms.length ∧
        if (s.cpusets topCpuset).isSchedLoadBalance then doms = [(s.cpusets topCpuset).cpusAllowed]
        else Nested s → IsPartition s doms := by
  by_cases htop : (s.cpusets topCpuset).isSchedLoadBalance = true
  · rw [generateSchedDomains, if_pos htop]
    split
    · refine ⟨_, rfl, ?_⟩
      rintro doms hdoms
      rw [← Option.some.inj hdoms]
      exact ⟨rfl, rfl⟩
    · refine ⟨_, rfl, ?_⟩
      rintro doms hdoms
      cases hdoms
  · rw [generateSchedDomains, if_neg htop]
    split
    · refine ⟨_, rfl, ?_⟩
      rintro doms hdoms
      cases hdoms
    obtain ⟨pn, ndoms, hloop, hmerged⟩ := mergeLoop_start (s := s) (nodup_csa h)
    rw [hloop]
    dsimp only
    split
    · refine ⟨_, rfl, ?_⟩
      rintro doms hdoms
      cases hdoms
    obtain ⟨numbers, hnodup, hnumbers, hfill⟩ :=
      fillDoms_spec (s := s) hmerged.card hmerged.nonneg (List.nil_append s.csa).symm
        List.nodup_nil (by simp) (by simp)
        (fun c _ => by simp : ∀ c ∈ s.csa, pn c = if pn c ∈ ([] : List Int) then -1 else pn c)
    have hlength : numbers.length = ndoms := by
      rw [← List.toFinset_card_of_nodup hnodup, hnumbers, hmerged.card]
    rw [List.map_nil] at hfill
    rw [hfill, List.length_map, if_neg (not_not.2 hlength)]
    refine ⟨_, rfl, ?_⟩
    rintro doms hdoms
    rw [← Option.some.inj hdoms]
    refine ⟨?_, ?_⟩
    · rw [List.length_map, List.length_map, hlength]
    · exact fun hnested => isPartition_of_merged h hnested hmerged hnodup hnumbers

end LineageA1000.Cpusets
