import LineageA1000.Cpusets.Domains

/-!
# What changes cpusets

Writes to the files of a cpuset, the making and the removal of cpusets, tasks that come and go, and
hotplug. Every function that ends in a rebuild of the scheduler's domains has no result when
`generate_sched_domains` has none.

Hotplug is asynchronous. The CPU and memory code sets its mask and schedules `cpuset_hotplug_work`;
that work sets the root's masks and, when something went away, queues `hotplug_work` of every cpuset;
these items run one at a time, each in two parts, as its mutex is dropped before the tasks of an
empty cpuset are moved; the first work waits for them and rebuilds the domains.
-/

namespace LineageA1000.Cpusets

variable {Cpu Node : Type*}

/-- The result of the allocations of a call. -/
structure Memory where
  trial : Bool
  oldmem : Bool
  heap : Bool
  domains : Alloc
  deriving DecidableEq

/-- The text written to a mask file: whether it is empty, and what `cpulist_parse` and
`nodelist_parse` make of it. -/
structure MaskText (Cpu Node : Type*) where
  blank : Bool
  cpus : Except Int (Finset Cpu)
  nodes : Except Int (Finset Node)

/-- `cpuset_filetype_t`. -/
inductive FileType
  | memoryMigrate
  | cpulist
  | memlist
  | cpuExclusive
  | memExclusive
  | memHardwall
  | schedLoadBalance
  | schedRelaxDomainLevel
  | memoryPressureEnabled
  | memoryPressure
  | spreadPage
  | spreadSlab
  deriving DecidableEq, Repr

namespace System

def setDomains (s : System Cpu Node) (domains : SchedDomains Cpu) : System Cpu Node :=
  { s with domains := domains }

@[simp] theorem setDomains_cpusets (s : System Cpu Node) (d : SchedDomains Cpu) :
    (s.setDomains d).cpusets = s.cpusets := rfl

@[simp] theorem setDomains_created (s : System Cpu Node) (d : SchedDomains Cpu) :
    (s.setDomains d).created = s.created := rfl

end System

variable [DecidableEq Cpu] [DecidableEq Node]

/-! ### Writes -/

/-- `rebuild_sched_domains_locked`: nothing while hotplug work has yet to reach the root. -/
def rebuildSchedDomainsLocked (s : System Cpu Node) (alloc : Alloc) : Option (System Cpu Node) :=
  if (s.cpusets topCpuset).cpusAllowed ≠ s.cpuActiveMask then some s
  else (generateSchedDomains s alloc).map s.setDomains

/-- The mask in a text: an empty text clears the mask, and a list must be within `available`. -/
def parseMask {α : Type*} [DecidableEq α] (blank : Bool) (list : Except Int (Finset α))
    (available : Finset α) : Except Int (Finset α) :=
  if blank then .ok ∅
  else
    match list with
    | .error err => .error err
    | .ok mask => if mask ⊆ available then .ok mask else .error (-EINVAL)

/-- `update_cpumask`. -/
def updateCpumask (s : System Cpu Node) (c : CsId) (text : MaskText Cpu Node) (mem : Memory) :
    Option (System Cpu Node × Int) :=
  if c = topCpuset then some (s, -EACCES)
  else
    match parseMask text.blank text.cpus s.cpuActiveMask with
    | .error err => some (s, err)
    | .ok mask =>
        let trial := { s.cpusets c with cpusAllowed := mask }
        if validateChange s c trial < 0 then some (s, validateChange s c trial)
        else if (s.cpusets c).cpusAllowed = mask then some (s, 0)
        else if ¬ mem.heap then some (s, -ENOMEM)
        else if trial.isSchedLoadBalance then
          (rebuildSchedDomainsLocked (s.update c trial) mem.domains).map fun s' => (s', 0)
        else some (s.update c trial, 0)

/-- `update_nodemask`. -/
def updateNodemask (s : System Cpu Node) (c : CsId) (text : MaskText Cpu Node) (mem : Memory) :
    System Cpu Node × Int :=
  if ¬ mem.oldmem then (s, -ENOMEM)
  else if c = topCpuset then (s, -EACCES)
  else
    match parseMask text.blank text.nodes s.nodeMemory with
    | .error err => (s, err)
    | .ok mask =>
        let trial := { s.cpusets c with memsAllowed := mask }
        if (s.cpusets c).memsAllowed = mask then (s, 0)
        else if validateChange s c trial < 0 then (s, validateChange s c trial)
        else if ¬ mem.heap then (s, -ENOMEM)
        else (s.update c trial, 0)

/-- `update_relax_domain_level`. -/
def updateRelaxDomainLevel (s : System Cpu Node) (c : CsId) (val : Int) (mem : Memory) :
    Option (System Cpu Node × Int) :=
  if val < -1 ∨ s.schedDomainLevelMax ≤ val then some (s, -EINVAL)
  else if val = (s.cpusets c).relaxDomainLevel then some (s, 0)
  else
    let cs := { s.cpusets c with relaxDomainLevel := val }
    if cs.cpusAllowed ≠ ∅ ∧ cs.isSchedLoadBalance then
      (rebuildSchedDomainsLocked (s.update c cs) mem.domains).map fun s' => (s', 0)
    else some (s.update c cs, 0)

/-- `update_flag`. -/
def updateFlag (s : System Cpu Node) (bit : Flagbit) (c : CsId) (turningOn : Bool) (mem : Memory) :
    Option (System Cpu Node × Int) :=
  if ¬ mem.trial then some (s, -ENOMEM)
  else
    let trial := (s.cpusets c).setFlag bit turningOn
    if validateChange s c trial < 0 then some (s, validateChange s c trial)
    else if ¬ mem.heap then some (s, -ENOMEM)
    else if trial.cpusAllowed ≠ ∅ ∧
        (s.cpusets c).isSchedLoadBalance ≠ trial.isSchedLoadBalance then
      (rebuildSchedDomainsLocked (s.update c trial) mem.domains).map fun s' => (s', 0)
    else some (s.update c trial, 0)

/-- `cpuset_write_u64`. The value becomes an `int` on the way to `update_flag`. -/
def cpusetWriteU64 (s : System Cpu Node) (c : CsId) (type : FileType) (val : Nat) (mem : Memory) :
    Option (System Cpu Node × Int) :=
  if ¬ (s.cpusets c).isOnline then some (s, -ENODEV)
  else
    let turningOn := decide (val % 2 ^ 32 ≠ 0)
    match type with
    | .cpuExclusive => updateFlag s .cpuExclusive c turningOn mem
    | .memExclusive => updateFlag s .memExclusive c turningOn mem
    | .memHardwall => updateFlag s .memHardwall c turningOn mem
    | .schedLoadBalance => updateFlag s .schedLoadBalance c turningOn mem
    | .memoryMigrate => updateFlag s .memoryMigrate c turningOn mem
    | .memoryPressureEnabled => some ({ s with memoryPressureEnabled := decide (val ≠ 0) }, 0)
    | .memoryPressure => some (s, -EACCES)
    | .spreadPage => updateFlag s .spreadPage c turningOn mem
    | .spreadSlab => updateFlag s .spreadSlab c turningOn mem
    | _ => some (s, -EINVAL)

/-- `cpuset_write_s64`. -/
def cpusetWriteS64 (s : System Cpu Node) (c : CsId) (type : FileType) (val : Int) (mem : Memory) :
    Option (System Cpu Node × Int) :=
  if ¬ (s.cpusets c).isOnline then some (s, -ENODEV)
  else
    match type with
    | .schedRelaxDomainLevel => updateRelaxDomainLevel s c val mem
    | _ => some (s, -EINVAL)

/-- `cpuset_write_resmask`, from where it holds the mutex. -/
def cpusetWriteResmask (s : System Cpu Node) (c : CsId) (type : FileType)
    (text : MaskText Cpu Node) (mem : Memory) : Option (System Cpu Node × Int) :=
  if ¬ (s.cpusets c).isOnline then some (s, -ENODEV)
  else if ¬ mem.trial then some (s, -ENOMEM)
  else
    match type with
    | .cpulist => updateCpumask s c text mem
    | .memlist => some (updateNodemask s c text mem)
    | _ => some (s, -EINVAL)

/-! ### Cpusets come and go -/

/-- `cpuset_css_alloc` of a cpuset that is not the root. -/
def cpusetCssAlloc (parent : CsId) : Cpuset Cpu Node where
  parent := some parent
  flags := Function.update (fun _ => false) .schedLoadBalance true
  cpusAllowed := ∅
  memsAllowed := ∅
  attachInProgress := 0
  relaxDomainLevel := -1
  taskCount := 0

/-- What `cpuset_css_online` makes of a cpuset, with the masks of the parent or without. -/
def onlined (parent cs : Cpuset Cpu Node) (cloned : Bool) : Cpuset Cpu Node :=
  let cs := cs.setFlag .online true
  let cs := if parent.flags .spreadPage then cs.setFlag .spreadPage true else cs
  let cs := if parent.flags .spreadSlab then cs.setFlag .spreadSlab true else cs
  if cloned then
    { cs with memsAllowed := parent.memsAllowed, cpusAllowed := parent.cpusAllowed }
  else cs

/-- `cpuset_css_online`. The masks are cloned when the cgroup says so and no cpuset beside the new
one is exclusive. -/
def cpusetCssOnline (s : System Cpu Node) (c : CsId) (clone : Bool) : System Cpu Node :=
  let p := s.parentId c
  let cloned := clone && decide (∀ d ∈ s.onlineChildren p,
    ¬ ((s.cpusets d).isMemExclusive ∨ (s.cpusets d).isCpuExclusive))
  { s.update c (onlined (s.cpusets p) (s.cpusets c) cloned) with
    numberOfCpusets := s.numberOfCpusets + 1 }

/-- The core makes a cgroup: `css_alloc`, the link to the parent, `css_online`. -/
def create (s : System Cpu Node) (parent : CsId) (clone : Bool) : System Cpu Node :=
  cpusetCssOnline
    { s.update s.nextId (cpusetCssAlloc parent) with
      created := s.created ++ [s.nextId]
      nextId := s.nextId + 1 } s.nextId clone

/-- `cpuset_css_offline`. A failed `update_flag` is ignored. -/
def cpusetCssOffline (s : System Cpu Node) (c : CsId) (mem : Memory) : Option (System Cpu Node) :=
  let cleared :=
    if (s.cpusets c).isSchedLoadBalance then
      (updateFlag s .schedLoadBalance c false mem).map Prod.fst
    else some s
  cleared.map fun s' =>
    { s'.update c ((s'.cpusets c).setFlag .online false) with
      numberOfCpusets := s'.numberOfCpusets - 1 }

/-- The core removes a cgroup: `css_offline` and the unlinking. -/
def remove (s : System Cpu Node) (c : CsId) (mem : Memory) : Option (System Cpu Node) :=
  (cpusetCssOffline s c mem).map fun s' => { s' with created := s'.created.erase c }

/-! ### Hotplug work -/

/-- `schedule_cpuset_propagate_hotplug`: queues the work unless it is pending. -/
def scheduleCpusetPropagateHotplug (s : System Cpu Node) (c : CsId) : System Cpu Node :=
  if c ∈ s.queued then s else { s with queued := s.queued ++ [c] }

/-- `cpuset_hotplug_workfn`, up to where it waits. -/
def cpusetHotplugWorkfn (s : System Cpu Node) : System Cpu Node :=
  let top := s.cpusets topCpuset
  let offlined := ¬ top.cpusAllowed ⊆ s.cpuActiveMask ∨ ¬ top.memsAllowed ⊆ s.nodeMemory
  let synced :=
    { s.update topCpuset { top with cpusAllowed := s.cpuActiveMask, memsAllowed := s.nodeMemory } with
      hotplug := ⟨false, true, decide (top.cpusAllowed ≠ s.cpuActiveMask)⟩ }
  if offlined then
    ((synced.descendants (fun _ => true) topCpuset).filter fun c =>
      (synced.cpusets c).isOnline).foldl scheduleCpusetPropagateHotplug synced
  else synced

/-- The end of `cpuset_hotplug_workfn`. -/
def hotplugDone (s : System Cpu Node) (mem : Memory) : Option (System Cpu Node) :=
  let s' := { s with hotplug := { s.hotplug with running := false } }
  if s.hotplug.cpusUpdated then rebuildSchedDomainsLocked s' mem.domains else some s'

/-- What `cpuset_propagate_hotplug_workfn` leaves of a cpuset's masks: the CPUs that went away go only
when no CPU is left. -/
def trimmed (top cs : Cpuset Cpu Node) : Cpuset Cpu Node :=
  let offCpus := cs.cpusAllowed \ top.cpusAllowed
  let offMems := cs.memsAllowed \ top.memsAllowed
  { cs with
    cpusAllowed :=
      if offCpus ≠ ∅ ∧ Disjoint cs.cpusAllowed top.cpusAllowed then cs.cpusAllowed \ offCpus
      else cs.cpusAllowed
    memsAllowed := if offMems ≠ ∅ then cs.memsAllowed \ offMems else cs.memsAllowed }

/-- No CPU or no memory is left. -/
def Cpuset.isEmpty (c : Cpuset Cpu Node) : Bool := c.cpusAllowed = ∅ || c.memsAllowed = ∅

/-- `cpuset_propagate_hotplug_workfn`, up to where it drops the mutex. -/
def cpusetPropagateHotplugWorkfn (s : System Cpu Node) (c : CsId) : System Cpu Node :=
  let cs := trimmed (s.cpusets topCpuset) (s.cpusets c)
  { s.update c cs with emptied := if cs.isEmpty then some c else none }

/-- The loop of `remove_tasks_in_empty_cpuset`: the next ancestor with CPUs and memory. It has no
result when it walks past the root. -/
def nonEmptyAncestor (s : System Cpu Node) : Nat → CsId → Option CsId
  | 0, _ => none
  | n + 1, c =>
      match (s.cpusets c).parent with
      | none => none
      | some p => if (s.cpusets p).isEmpty then nonEmptyAncestor s n p else some p

/-- Moves tasks from one cpuset to another. -/
def moveTasks (s : System Cpu Node) (src dst : CsId) (n : Nat) : System Cpu Node :=
  let s' := s.update src { s.cpusets src with taskCount := (s.cpusets src).taskCount - n }
  s'.update dst { s'.cpusets dst with taskCount := (s'.cpusets dst).taskCount + n }

/-- `remove_tasks_in_empty_cpuset`. The core may fail to move the tasks. -/
def removeTasksInEmptyCpuset (s : System Cpu Node) (c : CsId) (moved : Bool) :
    Option (System Cpu Node) :=
  (nonEmptyAncestor s (c + 1) c).map fun p =>
    { (if moved then moveTasks s c p (s.cpusets c).taskCount else s) with emptied := none }

/-- `cpuset_update_active_cpus`, called with the new mask. -/
def cpusetUpdateActiveCpus (s : System Cpu Node) (mask : Finset Cpu) : System Cpu Node :=
  { s with
    cpuActiveMask := mask
    domains := ⟨1, none, none⟩
    hotplug := { s.hotplug with scheduled := true } }

/-- `cpuset_track_online_nodes`. -/
def cpusetTrackOnlineNodes (s : System Cpu Node) (mask : Finset Node) : System Cpu Node :=
  { s with nodeMemory := mask, hotplug := { s.hotplug with scheduled := true } }

/-! ### Tasks -/

/-- `cpuset_can_attach`; `refusal` is what the loop over the tasks returns, `0` when each may move. -/
def cpusetCanAttach (s : System Cpu Node) (c : CsId) (refusal : Int) : System Cpu Node × Int :=
  let cs := s.cpusets c
  if cs.isEmpty then (s, -ENOSPC)
  else if refusal ≠ 0 then (s, refusal)
  else (s.update c { cs with attachInProgress := cs.attachInProgress + 1 }, 0)

/-- `cpuset_cancel_attach`. -/
def cpusetCancelAttach (s : System Cpu Node) (c : CsId) : System Cpu Node :=
  s.update c { s.cpusets c with attachInProgress := (s.cpusets c).attachInProgress - 1 }

/-- `cpuset_attach`. -/
def cpusetAttach (s : System Cpu Node) (c : CsId) : System Cpu Node :=
  let s' := cpusetCancelAttach s c
  if (s'.cpusets c).isEmpty then scheduleCpusetPropagateHotplug s' c else s'

/-! ### The system -/

/-- `top_cpuset` and the rest after `cpuset_init` and `cpuset_init_smp`. The tasks are all in the
root. -/
def booted (active : Finset Cpu) (memory : Finset Node) (levelMax : Int) (tasks : Nat) :
    System Cpu Node where
  cpusets c :=
    if c = topCpuset then
      { parent := none
        flags := fun bit =>
          decide (bit ∈ [.online, .cpuExclusive, .memExclusive, .schedLoadBalance])
        cpusAllowed := active
        memsAllowed := memory
        attachInProgress := 0
        relaxDomainLevel := -1
        taskCount := tasks }
    else
      { parent := none
        flags := fun _ => false
        cpusAllowed := ∅
        memsAllowed := ∅
        attachInProgress := 0
        relaxDomainLevel := -1
        taskCount := 0 }
  created := []
  nextId := 1
  numberOfCpusets := 1
  cpuActiveMask := active
  nodeMemory := memory
  schedDomainLevelMax := levelMax
  memoryPressureEnabled := false
  hotplug := ⟨false, false, false⟩
  queued := []
  emptied := none
  domains := ⟨1, none, none⟩

/-- What happens to the cpusets. -/
inductive Event (Cpu Node : Type*)
  | create (parent : CsId) (clone : Bool)
  | remove (c : CsId) (mem : Memory)
  | writeU64 (c : CsId) (type : FileType) (val : Nat) (mem : Memory)
  | writeS64 (c : CsId) (type : FileType) (val : Int) (mem : Memory)
  | writeResmask (c : CsId) (type : FileType) (text : MaskText Cpu Node) (mem : Memory)
  /-- Tasks fork and exit. -/
  | tasks (c : CsId) (n : Nat)
  | canAttach (c : CsId) (refusal : Int)
  | cancelAttach (c : CsId)
  /-- The core moves tasks and calls `cpuset_attach`. -/
  | attach (src c : CsId) (n : Nat)
  | setActive (mask : Finset Cpu)
  | setMemory (mask : Finset Node)
  | hotplugWork
  /-- The first part of the next queued work. -/
  | propagate
  /-- The second part. -/
  | transfer (moved : Bool)
  | hotplugDone (mem : Memory)

/-- What an event does. It has no result when a `BUG_ON` strikes or a loop does not end. -/
def handle (s : System Cpu Node) : Event Cpu Node → Option (System Cpu Node)
  | .create parent clone => some (create s parent clone)
  | .remove c mem => remove s c mem
  | .writeU64 c type val mem => (cpusetWriteU64 s c type val mem).map Prod.fst
  | .writeS64 c type val mem => (cpusetWriteS64 s c type val mem).map Prod.fst
  | .writeResmask c type text mem => (cpusetWriteResmask s c type text mem).map Prod.fst
  | .tasks c n => some (s.update c { s.cpusets c with taskCount := n })
  | .canAttach c refusal => some (cpusetCanAttach s c refusal).1
  | .cancelAttach c => some (cpusetCancelAttach s c)
  | .attach src c n => some (cpusetAttach (moveTasks s src c n) c)
  | .setActive mask => some (cpusetUpdateActiveCpus s mask)
  | .setMemory mask => some (cpusetTrackOnlineNodes s mask)
  | .hotplugWork => some (cpusetHotplugWorkfn s)
  | .propagate =>
      match s.queued with
      | [] => some s
      | c :: rest => some (cpusetPropagateHotplugWorkfn { s with queued := rest } c)
  | .transfer moved =>
      match s.emptied with
      | none => some s
      | some c => removeTasksInEmptyCpuset s c moved
  | .hotplugDone mem => hotplugDone s mem

def next (s : System Cpu Node) (e : Event Cpu Node) : System Cpu Node := (handle s e).getD s

omit [DecidableEq Cpu] [DecidableEq Node] in
/-- What the core and the workqueues promise: children of linked cgroups only; no cgroup with tasks
or children is removed; only cgroups with tasks fork; a CPU and a memory node remain; work runs
when it is scheduled, and an ordered queue's items run one after another. -/
def Possible (s : System Cpu Node) : Event Cpu Node → Prop
  | .create parent _ => parent = topCpuset ∨ parent ∈ s.created
  | .remove c _ => c ∈ s.created ∧ s.children c = [] ∧ (s.cpusets c).taskCount = 0 ∧
      (s.cpusets c).attachInProgress = 0
  | .tasks c n => n ≠ 0 → (s.cpusets c).taskCount ≠ 0
  | .canAttach c _ => c = topCpuset ∨ c ∈ s.created
  | .cancelAttach c => (s.cpusets c).attachInProgress ≠ 0
  | .attach src c n => (s.cpusets c).attachInProgress ≠ 0 ∧ n ≤ (s.cpusets src).taskCount
  | .setActive mask => mask ≠ ∅
  | .setMemory mask => mask ≠ ∅
  | .hotplugWork => s.hotplug.scheduled = true ∧ s.hotplug.running = false
  | .propagate => s.queued ≠ [] ∧ s.emptied = none
  | .transfer _ => s.emptied ≠ none
  | .hotplugDone _ => s.hotplug.running = true ∧ s.queued = [] ∧ s.emptied = none
  | _ => True

/-- No hotplug work is outstanding. -/
def Settled (s : System Cpu Node) : Prop :=
  s.hotplug.scheduled = false ∧ s.hotplug.running = false ∧ s.queued = [] ∧ s.emptied = none

omit [DecidableEq Cpu] [DecidableEq Node] in
/-- No hotplug slips in between the flushes of `cpuset_write_resmask` and its mutex, nor into the
making of a cpuset that clones its parent's masks. -/
def Waited (s : System Cpu Node) : Event Cpu Node → Prop
  | .writeResmask .. => Settled s
  | .create _ true => Settled s
  | _ => True

instance decidablePossible (s : System Cpu Node) : ∀ e, Decidable (Possible s e)
  | .create p _ => inferInstanceAs (Decidable (p = topCpuset ∨ p ∈ s.created))
  | .remove c _ => inferInstanceAs (Decidable (c ∈ s.created ∧ s.children c = [] ∧
      (s.cpusets c).taskCount = 0 ∧ (s.cpusets c).attachInProgress = 0))
  | .writeU64 .. => inferInstanceAs (Decidable True)
  | .writeS64 .. => inferInstanceAs (Decidable True)
  | .writeResmask .. => inferInstanceAs (Decidable True)
  | .tasks c n => inferInstanceAs (Decidable (n ≠ 0 → (s.cpusets c).taskCount ≠ 0))
  | .canAttach c _ => inferInstanceAs (Decidable (c = topCpuset ∨ c ∈ s.created))
  | .cancelAttach c => inferInstanceAs (Decidable ((s.cpusets c).attachInProgress ≠ 0))
  | .attach src c n => inferInstanceAs (Decidable ((s.cpusets c).attachInProgress ≠ 0 ∧
      n ≤ (s.cpusets src).taskCount))
  | .setActive mask => inferInstanceAs (Decidable (mask ≠ ∅))
  | .setMemory mask => inferInstanceAs (Decidable (mask ≠ ∅))
  | .hotplugWork => inferInstanceAs (Decidable (s.hotplug.scheduled = true ∧
      s.hotplug.running = false))
  | .propagate => inferInstanceAs (Decidable (s.queued ≠ [] ∧ s.emptied = none))
  | .transfer _ => inferInstanceAs (Decidable (s.emptied ≠ none))
  | .hotplugDone _ => inferInstanceAs (Decidable (s.hotplug.running = true ∧ s.queued = [] ∧
      s.emptied = none))

instance decidableSettled (s : System Cpu Node) : Decidable (Settled s) :=
  inferInstanceAs (Decidable (_ ∧ _ ∧ _ ∧ _))

instance decidableWaited (s : System Cpu Node) : ∀ e, Decidable (Waited s e)
  | .create _ true => inferInstanceAs (Decidable (Settled s))
  | .create _ false => inferInstanceAs (Decidable True)
  | .writeResmask .. => inferInstanceAs (Decidable (Settled s))
  | .remove .. => inferInstanceAs (Decidable True)
  | .writeU64 .. => inferInstanceAs (Decidable True)
  | .writeS64 .. => inferInstanceAs (Decidable True)
  | .tasks .. => inferInstanceAs (Decidable True)
  | .canAttach .. => inferInstanceAs (Decidable True)
  | .cancelAttach .. => inferInstanceAs (Decidable True)
  | .attach .. => inferInstanceAs (Decidable True)
  | .setActive .. => inferInstanceAs (Decidable True)
  | .setMemory .. => inferInstanceAs (Decidable True)
  | .hotplugWork => inferInstanceAs (Decidable True)
  | .propagate => inferInstanceAs (Decidable True)
  | .transfer .. => inferInstanceAs (Decidable True)
  | .hotplugDone .. => inferInstanceAs (Decidable True)

end LineageA1000.Cpusets
