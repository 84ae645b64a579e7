import LineageA1000.Fuse.Graph
import LineageA1000.Lib.Run
import Mathlib.Data.Fintype.Defs

/-!
# The daemon and its four views

Each view has one thread, which reads a request from its kernel, serves it and reads the next. The
threads share the node graph, under `global.lock`, and the directory tree below. A step of a thread
is one critical section, one call to the underlying file system, or one write to its kernel; the
steps of the four threads come in any order.
-/

namespace LineageA1000.Fuse

/-- `fuse_default`, `fuse_read`, `fuse_write` and `fuse_full`. -/
inductive View where
  | default
  | read
  | write
  | full
  deriving DecidableEq, Repr

instance : Fintype View := ⟨{.default, .read, .write, .full}, fun v => by cases v <;> decide⟩

/-- The requests that are answered with an entry. -/
inductive EntryOp where
  | lookup
  | mknod
  | mkdir
  deriving DecidableEq, Repr

/-- The requests that remove a name. -/
inductive RemoveOp where
  | unlink
  | rmdir
  deriving DecidableEq, Repr

inductive Request where
  | entry (op : EntryOp) (nodeid : NodeId) (name : Bytes)
  | remove (op : RemoveOp) (nodeid : NodeId) (name : Bytes)
  | rename (nodeid : NodeId) (oldName : Bytes) (newdir : NodeId) (newName : Bytes)
  deriving DecidableEq, Repr

/-- The nodes a request names. -/
def Request.nodes : Request → List NodeId
  | .entry _ nodeid _ => [nodeid]
  | .remove _ nodeid _ => [nodeid]
  | .rename nodeid _ newdir _ => [nodeid, newdir]

/-- A request after its first critical section. A rename holds the child it found. -/
inductive Task where
  | entry (op : EntryOp) (nodeid : NodeId) (name : Bytes)
  | remove (op : RemoveOp) (nodeid : NodeId) (name : Bytes)
  | rename (nodeid : NodeId) (oldName : Bytes) (newdir : NodeId) (newName : Bytes) (child : NodeId)
      (oldChildPath : Bytes)
  deriving DecidableEq, Repr

/-- Where a thread stands. -/
inductive Pc where
  /-- The last request returned `res`; the next one has not been read. -/
  | idle (res : Int)
  | resolve (req : Request)
  /-- `access` in `find_file_within`. -/
  | access (task : Task) (parentPath : Bytes)
  /-- The search for the name in another case. -/
  | search (task : Task) (parentPath : Bytes)
  /-- The system call the request asks for. -/
  | call (task : Task) (childPath actualName : Bytes)
  | nomedia (nodeid : NodeId) (name childPath actualName nomedia : Bytes)
  | lstat (nodeid : NodeId) (name childPath actualName : Bytes)
  /-- The critical section of `fuse_reply_entry`. -/
  | replyEntry (nodeid : NodeId) (name actualName : Bytes)
  /-- The write of the entry. -/
  | writeEntry (node : NodeId)
  | markDeleted (nodeid : NodeId) (name : Bytes)
  | notify (nodeid child : NodeId) (name : Bytes)
  | relink (newdir : NodeId) (newName newActualName : Bytes) (child : NodeId)
  | ioError (child : NodeId) (res : Int)
  deriving DecidableEq, Repr

/-- What a thread's step meets outside the daemon: what the allocator returns, whether there is
memory for a longer name, whether the kernel took the reply, and whether a file system call fails
for a reason that the directory tree does not show. -/
structure Outside where
  alloc : Option NodeId
  memory : Bool
  written : Bool
  fault : Option Int
  deriving DecidableEq, Repr

/-- `fuse_notify_delete` to one view. -/
structure Notification where
  view : View
  parent : NodeId
  child : NodeId
  name : Bytes
  deriving DecidableEq, Repr

structure System where
  shared : Global
  disk : Disk
  threads : View → Pc
  /-- The entries of a node that reached a view's kernel and that it has not forgotten. -/
  delivered : View → NodeId → Nat
  notified : List Notification
  /-- A critical section went astray: freed memory, or a walk without end. -/
  crashed : Bool

inductive Event where
  | request (v : View) (req : Request)
  | forget (v : View) (nodeid : NodeId) (nlookup : Nat)
  | run (v : View) (outside : Outside)
  | reload (packages : AppIdMap)
  deriving DecidableEq, Repr

/-- `NO_STATUS`. -/
abbrev NO_STATUS : Int := 1

namespace System

def setThread (s : System) (v : View) (pc : Pc) : System :=
  { s with threads := Function.update s.threads v pc }

def setNodes (s : System) (g : Graph) : System := { s with shared.nodes := g }

end System

/-! ### The pieces of the handlers -/

/-- `check_caller_access_to_name`: the security-sensitive files at the root. Every other access is
granted, whoever the caller is. -/
def checkCallerAccessToName (parent : Node) (name : Bytes) : Bool :=
  !(parent.perm = .root && (Bytes.CaseEq name nameAutorun ||
    Bytes.CaseEq name (0x2E :: nameAndroidSecure)
    || Bytes.CaseEq name nameAndroidSecure))

/-- The first critical section of a handler. -/
def resolve (req : Request) (v : View) (s : System) : Option System :=
  let g := s.shared.nodes
  match req with
  | .entry op nodeid name => do
      let _ ← g nodeid
      match getNodePath g nodeid PATH_MAX with
      | none => some (s.setThread v (.idle (-ENOENT)))
      | some parentPath => some (s.setThread v (.access (.entry op nodeid name) parentPath))
  | .remove op nodeid name => do
      let _ ← g nodeid
      match getNodePath g nodeid PATH_MAX with
      | none => some (s.setThread v (.idle (-ENOENT)))
      | some parentPath => some (s.setThread v (.access (.remove op nodeid name) parentPath))
  | .rename nodeid oldName newdir newName => do
      let oldParent ← g nodeid
      let newParent ← g newdir
      match getNodePath g nodeid PATH_MAX, getNodePath g newdir PATH_MAX with
      | some _, some newParentPath =>
          if checkCallerAccessToName oldParent oldName = false ∨
              checkCallerAccessToName newParent newName = false then
            some (s.setThread v (.idle (-EACCES)))
          else do
            let found ← lookupChildByName nodeid oldName g
            match found.bind fun child =>
                (getNodePath g child PATH_MAX).map fun path => (child, path) with
            | none => some (s.setThread v (.idle (-ENOENT)))
            | some (child, oldChildPath) => do
                let g ← acquireNode child g
                some ((s.setNodes g).setThread v
                  (.access (.rename nodeid oldName newdir newName child oldChildPath)
                    newParentPath))
      | _, _ => some (s.setThread v (.idle (-ENOENT)))

namespace Task

/-- The name that is looked for. -/
def target : Task → Bytes
  | .entry _ _ name => name
  | .remove _ _ name => name
  | .rename _ _ _ newName _ _ => newName

/-- Whether a name in another case is looked for as well. -/
def search : Task → Bool
  | .rename nodeid oldName newdir newName _ _ => nodeid ≠ newdir || ¬ Bytes.CaseEq oldName newName
  | _ => true

/-- Where a handler goes that gives up before its last critical section. -/
def fail (task : Task) (err : Int) : Pc :=
  match task with
  | .rename _ _ _ _ child _ => .ioError child (-err)
  | _ => .idle (-err)

end Task

/-- `find_file_within` up to `access`. -/
def findFileWithin (task : Task) (parentPath : Bytes) (v : View) (s : System) : System :=
  let childPath := parentPath ++ [slash] ++ task.target
  if PATH_MAX ≤ childPath.length then s.setThread v (task.fail ENOENT)
  else if task.search ∧ s.disk.kind childPath = none then s.setThread v (.search task parentPath)
  else s.setThread v (.call task childPath task.target)

/-- The rest of `find_file_within`. -/
def searchDirectory (task : Task) (parentPath : Bytes) (v : View) (s : System) : System :=
  let actualName :=
    ((s.disk.readdir parentPath).find? fun name => Bytes.CaseEq name task.target).getD task.target
  s.setThread v (.call task (parentPath ++ [slash] ++ actualName) actualName)

/-- A call to the file system, and where the thread goes from there. -/
def fsCall (fault : Option Int) (op : Disk → Except Int Disk) (v : View) (fail : Int → Pc)
    (next : Pc)
    (s : System) : System :=
  match fault with
  | some err => s.setThread v (fail err)
  | none =>
      match op s.disk with
      | .error err => s.setThread v (fail err)
      | .ok disk => { s with disk := disk }.setThread v next

/-- What follows a `mkdir`: `/Android/data` and `/Android/obb` are marked as `.nomedia`. -/
def afterMkdir (cfg : Config) (parent : Node) (nodeid : NodeId)
    (name childPath actualName : Bytes) :
    Pc :=
  if parent.perm = .android ∧ Bytes.CaseEq name nameData then
    .nomedia nodeid name childPath actualName
      ((childPath ++ [slash] ++ nameNomedia).take (PATH_MAX - 1))
  else if parent.perm = .android ∧ Bytes.CaseEq name nameObb then
    .nomedia nodeid name childPath actualName
      ((cfg.obbPath ++ [slash] ++ nameNomedia).take (PATH_MAX - 1))
  else .lstat nodeid name childPath actualName

/-- The system call of a request, after the check of the caller's access. -/
def callTask (cfg : Config) (o : Outside) (task : Task) (childPath actualName : Bytes) (v : View)
    (s : System) : Option System :=
  match task with
  | .entry op nodeid name => do
      let parent ← s.shared.nodes nodeid
      if checkCallerAccessToName parent name = false then some (s.setThread v (.idle (-EACCES)))
      else
        match op with
        | .lookup => some (s.setThread v (.lstat nodeid name childPath actualName))
        | .mknod =>
            some (fsCall o.fault (Disk.mknod childPath) v (fun err => .idle (-err))
              (.lstat nodeid name childPath actualName) s)
        | .mkdir =>
            some (fsCall o.fault (Disk.mkdir childPath) v (fun err => .idle (-err))
              (afterMkdir cfg parent nodeid name childPath actualName) s)
  | .remove op nodeid name => do
      let parent ← s.shared.nodes nodeid
      if checkCallerAccessToName parent name = false then some (s.setThread v (.idle (-EACCES)))
      else
        match op with
        | .unlink =>
            some (fsCall o.fault (Disk.unlink childPath) v (fun err => .idle (-err))
              (.markDeleted nodeid name) s)
        | .rmdir =>
            some (fsCall o.fault (Disk.rmdir childPath) v (fun err => .idle (-err))
              (.markDeleted nodeid name) s)
  | .rename _ _ newdir newName child oldChildPath =>
      some (fsCall o.fault (Disk.rename oldChildPath childPath) v (fun err => .ioError child (-err))
        (.relink newdir newName actualName child) s)

/-- The critical section of `fuse_reply_entry`. -/
def fuseReplyEntry (cfg : Config) (o : Outside) (nodeid : NodeId) (name actualName : Bytes)
    (v : View)
    (s : System) : Option System := do
  let (node, shared) ← acquireOrCreateChild cfg o.alloc nodeid name actualName s.shared
  match node with
  | none => some ({ s with shared := shared }.setThread v (.idle (-ENOMEM)))
  | some node => some ({ s with shared := shared }.setThread v (.writeEntry node))

/-- `fuse_reply`, which logs a failure and nothing else. -/
def fuseReply (o : Outside) (node : NodeId) (v : View) (s : System) : System :=
  { s with
    delivered :=
      if o.written then
        Function.update s.delivered v
          (Function.update (s.delivered v) node (s.delivered v node + 1))
      else s.delivered }.setThread v (.idle NO_STATUS)

/-- The last critical section of `handle_unlink` and `handle_rmdir`. -/
def markDeleted (nodeid : NodeId) (name : Bytes) (v : View) (s : System) : Option System := do
  match ← lookupChildByName nodeid name s.shared.nodes with
  | none => some (s.setThread v (.idle 0))
  | some child => do
      let node ← s.shared.nodes child
      some ((s.setNodes (s.shared.nodes.set child { node with deleted := true })).setThread v
        (.notify nodeid child name))

/-- All other views are told that the node is gone. -/
def notifyOthers (nodeid child : NodeId) (name : Bytes) (v : View) (s : System) : System :=
  { s with
    notified := s.notified ++ ([View.default, .read, .write, .full].filter (· ≠ v)).map fun w =>
      (⟨w, nodeid, child, name⟩ : Notification) }.setThread v (.idle 0)

/-- The graph after the last critical section of `handle_rename`, before the child is released, and
its result. -/
def relinkNodes (cfg : Config) (o : Outside) (newdir : NodeId) (newName newActualName : Bytes)
    (child : NodeId) (s : Global) : Option (Int × Graph) := do
  let node ← s.nodes child
  match renameNode o.memory newName newActualName node with
  | none => some (-ENOMEM, s.nodes)
  | some renamed => do
      let g ← removeNodeFromParent child (s.nodes.set child renamed)
      let newParent ← g newdir
      let node ← g child
      let g := g.set child (derivePermissions cfg s.packages newParent node)
      let g ← derivePermissionsRecursive cfg s.packages child g
      let g ← addNodeToParent child newdir g
      some (0, g)

def relink (cfg : Config) (o : Outside) (newdir : NodeId) (newName newActualName : Bytes)
    (child : NodeId) (v : View) (s : System) : Option System := do
  let (res, g) ← relinkNodes cfg o newdir newName newActualName child s.shared
  let g ← releaseNode child g
  some ((s.setNodes g).setThread v (.idle res))

/-- The end of `handle_rename` after an error below. -/
def ioError (child : NodeId) (res : Int) (v : View) (s : System) : Option System := do
  let g ← releaseNode child s.shared.nodes
  some ((s.setNodes g).setThread v (.idle res))

/-- One step of a view's thread. -/
def advance (cfg : Config) (v : View) (o : Outside) (s : System) : Option System :=
  match s.threads v with
  | .idle _ => some s
  | .resolve req => resolve req v s
  | .access task parentPath => some (findFileWithin task parentPath v s)
  | .search task parentPath => some (searchDirectory task parentPath v s)
  | .call task childPath actualName => callTask cfg o task childPath actualName v s
  | .nomedia nodeid name childPath actualName nomedia =>
      some (fsCall o.fault (Disk.touch nomedia) v (fun _ => .idle (-ENOENT))
        (.lstat nodeid name childPath actualName) s)
  | .lstat nodeid name childPath actualName =>
      some (fsCall o.fault
        (fun disk => if (disk.kind childPath).isSome then .ok disk else .error ENOENT) v
        (fun err => .idle (-err)) (.replyEntry nodeid name actualName) s)
  | .replyEntry nodeid name actualName => fuseReplyEntry cfg o nodeid name actualName v s
  | .writeEntry node => some (fuseReply o node v s)
  | .markDeleted nodeid name => markDeleted nodeid name v s
  | .notify nodeid child name => some (notifyOthers nodeid child name v s)
  | .relink newdir newName newActualName child =>
      relink cfg o newdir newName newActualName child v s
  | .ioError child res => ioError child res v s

/-- `handle_forget`: the node is released once for each lookup. -/
def releaseTimes (n : NodeId) : Nat → Graph → Option Graph
  | 0, g => some g
  | k + 1, g => do
      let g ← releaseNode n g
      releaseTimes n k g

def handleForget (v : View) (nodeid : NodeId) (nlookup : Nat) (s : System) : Option System := do
  let g ← releaseTimes nodeid nlookup s.shared.nodes
  some { s.setNodes g with
    delivered := Function.update s.delivered v
      (Function.update (s.delivered v) nodeid (s.delivered v nodeid - nlookup)) }

/-- `read_package_list`, run by the thread that watches the list. -/
def readPackageList (cfg : Config) (packages : AppIdMap) (s : System) : Option System := do
  let g ← derivePermissionsRecursive cfg packages rootId s.shared.nodes
  some { s with shared := { s.shared with packages := packages, nodes := g } }

/-! ### The system -/

def Pc.isIdle : Pc → Bool
  | .idle _ => true
  | _ => false

theorem Pc.eq_idle {pc : Pc} (h : pc.isIdle = true) : ∃ res, pc = .idle res := by
  cases pc with
  | idle res => exact ⟨res, rfl⟩
  | _ => cases h

/-- A kernel names the root and the nodes it was given and has not forgotten. -/
def Names (s : System) (v : View) (n : NodeId) : Prop := n = rootId ∨ 0 < s.delivered v n

instance (s : System) (v : View) (n : NodeId) : Decidable (Names s v n) :=
  inferInstanceAs (Decidable (_ ∨ _))

/-- What happens, if it can: a thread reads a request or a `FORGET` only when it has served the last
one, and a kernel forgets only what it was given. -/
def perform (cfg : Config) (s : System) : Event → Option System
  | .request v req =>
      if (s.threads v).isIdle ∧ req.nodes.all fun n => Names s v n then
        some (s.setThread v (.resolve req))
      else some s
  | .forget v nodeid nlookup =>
      if (s.threads v).isIdle ∧ nlookup ≤ s.delivered v nodeid then handleForget v nodeid nlookup s
      else some s
  | .run v o => advance cfg v o s
  | .reload packages => readPackageList cfg packages s

def step (cfg : Config) (s : System) (e : Event) : System :=
  if s.crashed then s
  else
    match perform cfg s e with
    | none => { s with crashed := true }
    | some s' => s'

/-- `global.root`, as `run` sets it up. -/
def rootNode (cfg : Config) (multiUser : Bool) (userid : Nat) : Node where
  refcount := 2
  gen := 0
  ino := 0
  perm := if multiUser then .preRoot else .root
  userid := userid
  uid := AID_ROOT
  underAndroid := false
  next := none
  child := none
  parent := none
  name := cfg.sourcePath
  actualName := none
  graftPath := none
  deleted := false

/-- The daemon after `run`, over a directory tree. -/
def start (cfg : Config) (multiUser : Bool) (userid : Nat) (disk : Disk) : System where
  shared :=
    { nodes := Function.update (fun _ => none) rootId (some (rootNode cfg multiUser userid))
      inodeCtr := 1
      nextGeneration := 0
      packages := [] }
  disk := disk
  threads := fun _ => .idle 0
  delivered := fun _ _ => 0
  notified := []
  crashed := false

end LineageA1000.Fuse
