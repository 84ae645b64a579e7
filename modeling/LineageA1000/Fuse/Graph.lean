import LineageA1000.Lib.Chain
import LineageA1000.Lib.Heap
import LineageA1000.Lib.CText
import LineageA1000.Fuse.Disk

/-!
# The node graph of the sdcard daemon

The nodes of `fuse.h` and the functions of `fuse.cpp` that run under `global.lock`. A pointer is the
id the kernel knows the node by, and freed memory is a pointer with nothing behind it: a function
that reads it, or that follows a list without end, has no result.
-/

namespace LineageA1000.Fuse

/-- What a node is called by: the number of `fuse_entry_out.nodeid`. -/
abbrev NodeId := Fin (2 ^ 64)

scoped instance instNeZeroNodeIds : NeZero (2 ^ 64) := ⟨by decide⟩

/-- `FUSE_ROOT_ID`. -/
abbrev rootId : NodeId := 1

abbrev PATH_MAX : Nat := 4096

abbrev AID_ROOT : Nat := 0

/-- `perm_t`. -/
inductive Perm where
  | inherit
  | preRoot
  | root
  | android
  | androidData
  | androidObb
  | androidMedia
  deriving DecidableEq, Repr

/-- `struct node`; `nid` is the pointer itself. -/
structure Node where
  refcount : Nat
  gen : Nat
  ino : Nat
  perm : Perm
  userid : Nat
  uid : Nat
  underAndroid : Bool
  next : Option NodeId
  child : Option NodeId
  parent : Option NodeId
  name : Bytes
  actualName : Option Bytes
  graftPath : Option Bytes
  deleted : Bool
  deriving DecidableEq, Repr

abbrev Graph := NodeId → Option Node

/-- More steps than there are nodes. -/
abbrev enough : Nat := 2 ^ 64

namespace Graph

def set (g : Graph) (n : NodeId) (node : Node) : Graph := Function.update g n (some node)

def free (g : Graph) (n : NodeId) : Graph := Function.update g n none

@[simp] theorem set_self (g : Graph) (n : NodeId) (node : Node) : g.set n node n = some node :=
  Function.update_self ..

theorem set_of_ne {m n : NodeId} (h : m ≠ n) (g : Graph) (node : Node) : g.set n node m = g m :=
  Function.update_of_ne h ..

theorem set_set (g : Graph) (n : NodeId) (node node' : Node) :
    (g.set n node).set n node' = g.set n node' := Function.update_idem ..

@[simp] theorem free_self (g : Graph) (n : NodeId) : g.free n n = none := Function.update_self ..

theorem free_of_ne {m n : NodeId} (h : m ≠ n) (g : Graph) : g.free n m = g m :=
  Function.update_of_ne h ..

end Graph

/-- What the daemon is started with. `multiuser_get_uid` comes from another library. -/
structure Config where
  sourcePath : Bytes
  obbPath : Bytes
  multiuserGetUid : Nat → Nat → Nat

/-- `package_to_appid`, whose keys compare without case. -/
abbrev AppIdMap := List (Bytes × Nat)

def AppIdMap.appid (packages : AppIdMap) (name : Bytes) : Option Nat :=
  (packages.find? fun e => Bytes.CaseEq e.1 name).map (·.2)

/-! ### Names -/

/-- `"Android"`. -/
def nameAndroid : Bytes := [0x41, 0x6E, 0x64, 0x72, 0x6F, 0x69, 0x64]

/-- `"data"`. -/
def nameData : Bytes := [0x64, 0x61, 0x74, 0x61]

/-- `"obb"`. -/
def nameObb : Bytes := [0x6F, 0x62, 0x62]

/-- `"media"`. -/
def nameMedia : Bytes := [0x6D, 0x65, 0x64, 0x69, 0x61]

/-- `".nomedia"`. -/
def nameNomedia : Bytes := [0x2E, 0x6E, 0x6F, 0x6D, 0x65, 0x64, 0x69, 0x61]

/-- `"autorun.inf"`. -/
def nameAutorun : Bytes := [0x61, 0x75, 0x74, 0x6F, 0x72, 0x75, 0x6E, 0x2E, 0x69, 0x6E, 0x66]

/-- `"android_secure"`. -/
def nameAndroidSecure : Bytes :=
  [0x61, 0x6E, 0x64, 0x72, 0x6F, 0x69, 0x64, 0x5F, 0x73, 0x65, 0x63, 0x75, 0x72, 0x65]

/-! ### Reference counts and child lists -/

def acquireNode (n : NodeId) (g : Graph) : Option Graph := do
  let node ← g n
  some (g.set n { node with refcount := (node.refcount + 1) % 2 ^ 32 })

def addNodeToParent (n p : NodeId) (g : Graph) : Option Graph := do
  let node ← g n
  let parent ← g p
  let g := g.set n { node with parent := some p, next := parent.child }
  let parent ← g p
  acquireNode p (g.set p { parent with child := some n })

/-- The first half of `remove_node_from_parent_locked`: the node is taken out of the child list. -/
def unlinkSibling (n p : NodeId) (g : Graph) : Option Graph := do
  let node ← g n
  let parent ← g p
  if parent.child = some n then some (g.set p { parent with child := node.next })
  else
    let node2 ← Chain.prevFrom g Node.next n enough parent.child
    let prev ← g node2
    some (g.set node2 { prev with next := node.next })

/-- `remove_node_from_parent_locked`, with what it calls to release the parent. -/
def removeNodeFromParentBy (release : NodeId → Graph → Option Graph) (n : NodeId) (g : Graph) :
    Option Graph := do
  let node ← g n
  match node.parent with
  | none => some g
  | some p =>
      let g ← unlinkSibling n p g
      let g ← release p g
      let node ← g n
      some (g.set n { node with parent := none, next := none })

/-- `release_node_locked`, to a depth of at most `fuel` nodes freed one inside the other. -/
def releaseNodeWithin : Nat → NodeId → Graph → Option Graph
  | 0, _, _ => none
  | fuel + 1, n, g => do
      let node ← g n
      if node.refcount = 0 then some g
      else
        let g := g.set n { node with refcount := node.refcount - 1 }
        if node.refcount = 1 then
          let g ← removeNodeFromParentBy (releaseNodeWithin fuel) n g
          some (g.free n)
        else some g

def releaseNode : NodeId → Graph → Option Graph := releaseNodeWithin (enough + 1)

def removeNodeFromParent : NodeId → Graph → Option Graph := removeNodeFromParentBy releaseNode

/-! ### Permissions -/

/-- `derive_permissions_locked`: what a node gets from its parent and its name. -/
def derivePermissions (cfg : Config) (packages : AppIdMap) (parent node : Node) : Node :=
  let node := { node with
    perm := .inherit
    userid := parent.userid
    uid := parent.uid
    underAndroid := parent.underAndroid }
  match parent.perm with
  | .inherit => node
  | .preRoot => { node with perm := .root, userid := Bytes.strtoul10 node.name }
  | .root =>
      if Bytes.CaseEq node.name nameAndroid then
        { node with perm := .android, underAndroid := true }
      else node
  | .android =>
      if Bytes.CaseEq node.name nameData then { node with perm := .androidData }
      else if Bytes.CaseEq node.name nameObb then
        { node with perm := .androidObb, graftPath := some cfg.obbPath }
      else if Bytes.CaseEq node.name nameMedia then { node with perm := .androidMedia }
      else node
  | .androidData | .androidObb | .androidMedia =>
      match packages.appid node.name with
      | some appid => { node with uid := cfg.multiuserGetUid parent.userid appid }
      | none => node

/-- The loop of `derive_permissions_recursive_locked`, from one child of the node on. -/
def deriveSiblings (cfg : Config) (packages : AppIdMap) (recursive : NodeId → Graph → Option Graph)
    (p : NodeId) : Nat → Option NodeId → Graph → Option Graph
  | _, none, g => some g
  | 0, some _, _ => none
  | fuel + 1, some n, g => do
      let parent ← g p
      let node ← g n
      let g := g.set n (derivePermissions cfg packages parent node)
      let g ← (if node.child.isSome then recursive n g else some g)
      let node ← g n
      deriveSiblings cfg packages recursive p fuel node.next g

/-- `derive_permissions_recursive_locked`, to a depth of at most `depth` nodes. -/
def deriveWithin (cfg : Config) (packages : AppIdMap) : Nat → NodeId → Graph → Option Graph
  | 0, _, _ => none
  | depth + 1, p, g => do
      let parent ← g p
      deriveSiblings cfg packages (deriveWithin cfg packages depth) p enough parent.child g

def derivePermissionsRecursive (cfg : Config) (packages : AppIdMap) :
    NodeId → Graph → Option Graph :=
  deriveWithin cfg packages (enough + 1)

/-! ### Nodes and names -/

/-- What the locked functions share, of `struct fuse_global`. -/
structure Global where
  nodes : Graph
  inodeCtr : Nat
  nextGeneration : Nat
  packages : AppIdMap

/-- An address the allocator can return: memory that is not in use. -/
def Usable (g : Graph) (n : NodeId) : Prop := g n = none ∧ n ≠ 0 ∧ n ≠ rootId

instance (g : Graph) (n : NodeId) : Decidable (Usable g n) := inferInstanceAs (Decidable (_ ∧ _))

def newNode (s : Global) (name actualName : Bytes) : Node where
  refcount := 0
  gen := s.nextGeneration
  ino := s.inodeCtr
  perm := .inherit
  userid := 0
  uid := 0
  underAndroid := false
  next := none
  child := none
  parent := none
  name := name
  actualName := if name = actualName then none else some actualName
  graftPath := none
  deleted := false

/-- `create_node_locked`: `some none` is `NULL`. `alloc` is what `calloc` and `malloc` return. -/
def createNode (cfg : Config) (alloc : Option NodeId) (p : NodeId) (name actualName : Bytes)
    (s : Global) : Option (Option NodeId × Global) :=
  if s.inodeCtr = 0 then some (none, s)
  else
    match alloc.filter fun n => Usable s.nodes n with
    | none => some (none, s)
    | some n => do
        let parent ← s.nodes p
        let node := derivePermissions cfg s.packages parent (newNode s name actualName)
        let g ← acquireNode n (s.nodes.set n node)
        let g ← addNodeToParent n p g
        some (some n, { s with
          nodes := g
          inodeCtr := (s.inodeCtr + 1) % 2 ^ 32
          nextGeneration := (s.nextGeneration + 1) % 2 ^ 64 })

/-- `rename_node_locked`: `none` is `-ENOMEM`, which leaves the node as it was. `memory` says
whether there is memory for a name that needs more of it. -/
def renameNode (memory : Bool) (name actualName : Bytes) (node : Node) : Option Node :=
  if memory = false ∧ (node.name.length < name.length ∨
      name ≠ actualName ∧ node.actualName = none) then none
  else some { node with
    name := name
    actualName := if name = actualName then none else some actualName }

/-- `lookup_child_by_name_locked`: `some none` is `NULL`. -/
def lookupChildByName (p : NodeId) (name : Bytes) (g : Graph) : Option (Option NodeId) := do
  let parent ← g p
  Chain.findFrom g Node.next (fun node => node.name = name && !node.deleted) enough parent.child

def acquireOrCreateChild (cfg : Config) (alloc : Option NodeId) (p : NodeId)
    (name actualName : Bytes) (s : Global) : Option (Option NodeId × Global) := do
  match ← lookupChildByName p name s.nodes with
  | some child =>
      let g ← acquireNode child s.nodes
      some (some child, { s with nodes := g })
  | none => createNode cfg alloc p name actualName s

/-! ### Paths -/

/-- What a node adds to the paths that lead through it. -/
def Node.pathName (node : Node) : Bytes := node.graftPath.getD (node.actualName.getD node.name)

/-- `get_node_path_locked` with at most `fuel` nodes on the path; `none` is `-1`. -/
def nodePathWithin (g : Graph) : Nat → NodeId → Nat → Option Bytes
  | 0, _, _ => none
  | fuel + 1, n, bufsize => do
      let node ← g n
      let name := node.pathName
      if bufsize < name.length + 1 then none
      else
        match node.parent, node.graftPath with
        | some p, none => do
            let path ← nodePathWithin g fuel p (bufsize - name.length - 1)
            some (path ++ [slash] ++ name)
        | _, _ => some name

/-- `get_node_path_locked`. A node takes a byte of the buffer at least, which bounds the path. -/
def getNodePath (g : Graph) (n : NodeId) (bufsize : Nat) : Option Bytes :=
  nodePathWithin g (bufsize + 1) n bufsize

theorem nodePathWithin_eq (g : Graph) (n : NodeId) {fuel fuel' bufsize : Nat}
    (h : bufsize < fuel) (h' : bufsize < fuel') :
    nodePathWithin g fuel n bufsize = nodePathWithin g fuel' n bufsize := by
  induction fuel generalizing n bufsize fuel' with
  | zero => omega
  | succ fuel ih =>
      cases fuel' with
      | zero => omega
      | succ fuel' =>
          rw [nodePathWithin, nodePathWithin]
          cases g n with
          | none => rfl
          | some node =>
              show (if _ then _ else _) = (if _ then _ else _)
              by_cases hlong : bufsize < node.pathName.length + 1
              · rw [if_pos hlong, if_pos hlong]
              · have hshort (p : NodeId) :
                    nodePathWithin g fuel p (bufsize - node.pathName.length - 1) =
                      nodePathWithin g fuel' p (bufsize - node.pathName.length - 1) :=
                  ih p (by omega) (by omega)
                simp only [if_neg hlong, hshort]

/-- The recursion of the source, which the bound on the depth does not show in. -/
theorem getNodePath_eq (g : Graph) (n : NodeId) (bufsize : Nat) :
    getNodePath g n bufsize = (do
      let node ← g n
      let name := node.pathName
      if bufsize < name.length + 1 then none
      else
        match node.parent, node.graftPath with
        | some p, none => do
            let path ← getNodePath g p (bufsize - name.length - 1)
            some (path ++ [slash] ++ name)
        | _, _ => some name) := by
  rw [getNodePath, nodePathWithin]
  cases g n with
  | none => rfl
  | some node =>
      show (if _ then _ else _) = (if _ then _ else _)
      by_cases hlong : bufsize < node.pathName.length + 1
      · rw [if_pos hlong, if_pos hlong]
      · have hshort (p : NodeId) : nodePathWithin g bufsize p (bufsize - node.pathName.length - 1) =
            getNodePath g p (bufsize - node.pathName.length - 1) :=
          nodePathWithin_eq g p (by omega) (by omega)
        simp only [if_neg hlong, hshort]

end LineageA1000.Fuse
