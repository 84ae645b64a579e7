import LineageA1000.Lib.Errno
import LineageA1000.Lib.Run
import Mathlib.Data.Finset.Basic
import Mathlib.Data.Finset.Lattice.Basic
import Mathlib.Data.Finset.SDiff

/-!
# The cpuset hierarchy

`kernel/cpuset.c`: a tree of cpusets, each with the CPUs and the memory nodes its tasks may use.
Writes to a cpuset's files go through `validate_change`; CPU and memory hotplug runs behind them, as
work that sets the root cpuset and then queues work of its own for every cpuset below. This kernel's
hotplug takes the CPUs that went away out of a cpuset only when none of its CPUs is left.

A cpuset is called by the number of its creation. The cgroup core, the scheduler and the parsers of
the mask files are outside: the core links and unlinks cpusets and moves tasks, and a parser's result
is part of the write.
-/

namespace LineageA1000.Cpusets

abbrev CsId := Nat

/-- The root cpuset. -/
abbrev topCpuset : CsId := 0

/-- `cpuset_flagbits_t`. -/
inductive Flagbit
  | online
  | cpuExclusive
  | memExclusive
  | memHardwall
  | memoryMigrate
  | schedLoadBalance
  | spreadPage
  | spreadSlab
  deriving DecidableEq, Repr

/-- `struct cpuset`, with the parent of its cgroup and the number of its tasks. -/
structure Cpuset (Cpu Node : Type*) where
  parent : Option CsId
  flags : Flagbit → Bool
  cpusAllowed : Finset Cpu
  memsAllowed : Finset Node
  attachInProgress : Nat
  relaxDomainLevel : Int
  taskCount : Nat

/-- What the scheduler is given: the number of domains, the domains and their
`relax_domain_level`s; both are null pointers when an allocation failed. -/
structure SchedDomains (Cpu : Type*) where
  ndoms : Nat
  doms : Option (List (Finset Cpu))
  attributes : Option (List Int)

/-- The hotplug work, `cpuset_hotplug_work`: whether it is scheduled, and whether it runs and waits
for the work it has queued. -/
structure Hotplug where
  scheduled : Bool
  running : Bool
  cpusUpdated : Bool
  deriving DecidableEq

/-- The cpusets and what they depend on. `created` are the cgroups below the root, in the order in
which the core linked them to their parents. -/
structure System (Cpu Node : Type*) where
  cpusets : CsId → Cpuset Cpu Node
  created : List CsId
  nextId : CsId
  numberOfCpusets : Int
  cpuActiveMask : Finset Cpu
  nodeMemory : Finset Node
  schedDomainLevelMax : Int
  memoryPressureEnabled : Bool
  hotplug : Hotplug
  /-- The cpusets whose `hotplug_work` is queued, in the order of the workqueue. -/
  queued : List CsId
  /-- The cpuset whose `hotplug_work` runs and has yet to move the tasks out. -/
  emptied : Option CsId
  /-- What `partition_sched_domains` was last given. -/
  domains : SchedDomains Cpu

variable {Cpu Node : Type*}

namespace Cpuset

def isOnline (c : Cpuset Cpu Node) : Bool := c.flags .online

def isCpuExclusive (c : Cpuset Cpu Node) : Bool := c.flags .cpuExclusive

def isMemExclusive (c : Cpuset Cpu Node) : Bool := c.flags .memExclusive

def isSchedLoadBalance (c : Cpuset Cpu Node) : Bool := c.flags .schedLoadBalance

def setFlag (c : Cpuset Cpu Node) (bit : Flagbit) (on : Bool) : Cpuset Cpu Node :=
  { c with flags := Function.update c.flags bit on }

@[simp] theorem setFlag_parent (c : Cpuset Cpu Node) (bit : Flagbit) (on : Bool) :
    (c.setFlag bit on).parent = c.parent := rfl

@[simp] theorem setFlag_cpusAllowed (c : Cpuset Cpu Node) (bit : Flagbit) (on : Bool) :
    (c.setFlag bit on).cpusAllowed = c.cpusAllowed := rfl

@[simp] theorem setFlag_memsAllowed (c : Cpuset Cpu Node) (bit : Flagbit) (on : Bool) :
    (c.setFlag bit on).memsAllowed = c.memsAllowed := rfl

@[simp] theorem setFlag_flags_self (c : Cpuset Cpu Node) (bit : Flagbit) (on : Bool) :
    (c.setFlag bit on).flags bit = on := Function.update_self ..

theorem setFlag_flags_of_ne (c : Cpuset Cpu Node) {bit bit' : Flagbit} (on : Bool)
    (h : bit' ≠ bit) : (c.setFlag bit on).flags bit' = c.flags bit' := Function.update_of_ne h ..

end Cpuset

namespace System

/-- `parent_cs` of a cpuset that is not the root. -/
def parentId (s : System Cpu Node) (c : CsId) : CsId := (s.cpusets c).parent.getD topCpuset

/-- The children of a cgroup, in the order of its list. -/
def children (s : System Cpu Node) (p : CsId) : List CsId :=
  s.created.filter fun c => (s.cpusets c).parent = some p

/-- `cpuset_for_each_child`. -/
def onlineChildren (s : System Cpu Node) (p : CsId) : List CsId :=
  (s.children p).filter fun c => (s.cpusets c).isOnline

def update (s : System Cpu Node) (c : CsId) (cs : Cpuset Cpu Node) : System Cpu Node :=
  { s with cpusets := Function.update s.cpusets c cs }

@[simp] theorem update_cpusets_self (s : System Cpu Node) (c : CsId) (cs : Cpuset Cpu Node) :
    (s.update c cs).cpusets c = cs := Function.update_self ..

theorem update_cpusets_of_ne (s : System Cpu Node) {c d : CsId} (cs : Cpuset Cpu Node)
    (h : d ≠ c) : (s.update c cs).cpusets d = s.cpusets d := Function.update_of_ne h ..

@[simp] theorem update_created (s : System Cpu Node) (c : CsId) (cs : Cpuset Cpu Node) :
    (s.update c cs).created = s.created := rfl

end System

variable [DecidableEq Cpu] [DecidableEq Node]

/-! ### The rules -/

/-- `is_cpuset_subset`. -/
def isCpusetSubset (p q : Cpuset Cpu Node) : Bool :=
  p.cpusAllowed ⊆ q.cpusAllowed && p.memsAllowed ⊆ q.memsAllowed &&
    decide (p.isCpuExclusive ≤ q.isCpuExclusive) && decide (p.isMemExclusive ≤ q.isMemExclusive)

/-- Exclusive cpusets that have a CPU or a node in common. -/
def clash (p q : Cpuset Cpu Node) : Bool :=
  ((p.isCpuExclusive || q.isCpuExclusive) && ! decide (Disjoint p.cpusAllowed q.cpusAllowed)) ||
    ((p.isMemExclusive || q.isMemExclusive) && ! decide (Disjoint p.memsAllowed q.memsAllowed))

/-- `validate_change`: would the rules hold with the values of `trial` in the place of those of
`cur`? -/
def validateChange (s : System Cpu Node) (cur : CsId) (trial : Cpuset Cpu Node) : Int :=
  if ∃ c ∈ s.onlineChildren cur, isCpusetSubset (s.cpusets c) trial = false then -EBUSY
  else if cur = topCpuset then 0
  else if isCpusetSubset trial (s.cpusets (s.parentId cur)) = false then -EACCES
  else if ∃ c ∈ s.onlineChildren (s.parentId cur), c ≠ cur ∧ clash trial (s.cpusets c) = true then
    -EINVAL
  else if ((s.cpusets cur).taskCount ≠ 0 ∨ (s.cpusets cur).attachInProgress ≠ 0) ∧
      (trial.cpusAllowed = ∅ ∨ trial.memsAllowed = ∅) then -ENOSPC
  else 0

/-! ### The shape of the tree -/

omit [DecidableEq Cpu] [DecidableEq Node]

/-- The cgroups form a tree below the root: every cgroup is younger than its parent, which is linked
as well, and a cpuset is online while its cgroup is linked. -/
structure Tree (s : System Cpu Node) : Prop where
  nodup : s.created.Nodup
  root : (s.cpusets topCpuset).parent = none
  parent : ∀ c ∈ s.created, ∃ p, (s.cpusets c).parent = some p ∧ p < c ∧
    (p = topCpuset ∨ p ∈ s.created)
  rootYoung : topCpuset < s.nextId
  young : ∀ c ∈ s.created, c < s.nextId
  online : ∀ c, (s.cpusets c).isOnline = true ↔ c = topCpuset ∨ c ∈ s.created
  number : s.numberOfCpusets = s.created.length + 1

/-- One step up the tree. -/
def Up (s : System Cpu Node) (c p : CsId) : Prop := c ∈ s.created ∧ (s.cpusets c).parent = some p

theorem mem_children {s : System Cpu Node} {c p : CsId} : c ∈ s.children p ↔ Up s c p := by
  simp [System.children, Up]

namespace Tree

variable {s : System Cpu Node} {c d p : CsId}

theorem mem_onlineChildren (h : Tree s) : c ∈ s.onlineChildren p ↔ Up s c p := by
  rw [System.onlineChildren, List.mem_filter, mem_children, and_iff_left_iff_imp]
  exact fun hup => (h.online c).2 (.inr hup.1)

theorem parentId (hup : Up s c p) : s.parentId c = p := by
  rw [System.parentId, hup.2, Option.getD_some]

theorem lt (h : Tree s) (hup : Up s c p) : p < c := by
  obtain ⟨q, hq, hlt, -⟩ := h.parent c hup.1
  obtain rfl : p = q := Option.some.inj (hup.2.symm.trans hq)
  exact hlt

theorem ne_top (h : Tree s) (hc : c ∈ s.created) : c ≠ topCpuset := by
  obtain ⟨p, -, hlt, -⟩ := h.parent c hc
  exact Nat.ne_of_gt (lt_of_le_of_lt (Nat.zero_le p) hlt)

theorem exists_up (h : Tree s) (hc : c ∈ s.created) : ∃ p, Up s c p := by
  obtain ⟨p, hp, -⟩ := h.parent c hc
  exact ⟨p, hc, hp⟩

theorem le_of_up (h : Tree s) (hup : Relation.ReflTransGen (Up s) d c) : c ≤ d := by
  induction hup with
  | refl => exact le_rfl
  | tail _ hstep ih => exact (h.lt hstep).le.trans ih

/-- A cgroup is below one child of a cgroup at most. -/
theorem unique_child (h : Tree s) {a b : CsId} (ha : Up s a p) (hb : Up s b p)
    (hda : Relation.ReflTransGen (Up s) d a) (hdb : Relation.ReflTransGen (Up s) d b) : a = b := by
  have hfun : Relator.RightUnique (Up s) := fun x y z hy hz =>
    Option.some.inj (hy.2.symm.trans hz.2)
  -- The one is above the other, and so not above their parent, unless they are the same.
  have hside : ∀ {x y : CsId}, Up s x p → Up s y p → Relation.ReflTransGen (Up s) x y → x = y := by
    intro x y hx hy hxy
    cases hxy.cases_head with
    | inl heq => exact heq
    | inr hstep =>
        obtain ⟨q, hq, hqy⟩ := hstep
        obtain rfl : p = q := hfun hx hq
        exact absurd (h.le_of_up hqy) (not_le.2 (h.lt hy))
  cases Relation.ReflTransGen.total_of_right_unique hfun hda hdb with
  | inl hab => exact hside ha hb hab
  | inr hba => exact (hside hb ha hba).symm

end Tree

end LineageA1000.Cpusets
