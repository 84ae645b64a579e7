import LineageA1000.Fuse.Graph
import Mathlib.Data.List.GetD

/-!
# The path of a node in its buffer

`get_node_path_locked` of `fuse.cpp` with the buffer it writes to and its `size_t` arithmetic. Each
ancestor is given what the names below it leave of the buffer, so all the tests come before the
first byte is written, and a size test at one level is a test of the whole path below it.
-/

namespace LineageA1000.Fuse

/-- `size_t` and `ssize_t`. -/
abbrev SizeT := BitVec 32

/-- The bytes from `buf` on, those beyond its size included. -/
abbrev Buffer := Nat → UInt8

/-- `memcpy(buf + at, name, n)` where a NUL stands behind the name. -/
def Buffer.memcpy (buf : Buffer) (start : Nat) (name : Bytes) (n : Nat) : Buffer :=
  fun k => if start ≤ k ∧ k < start + n then (name ++ [0]).getD (k - start) 0 else buf k

/-- The `namelen` that goes with the name: the one of a graft is its own, and an actual name has
that of the name. -/
def Node.pathNamelen (node : Node) : SizeT :=
  match node.graftPath with
  | some graftPath => BitVec.ofNat 32 graftPath.length
  | none => BitVec.ofNat 32 node.name.length

/-- What is left to do once the path of the parent is in the buffer. -/
def finishPath (buf : Buffer) (pathlen : SizeT) (name : Bytes) (namelen : SizeT) : SizeT × Buffer :=
  (pathlen + namelen, buf.memcpy pathlen.toNat name (namelen + 1).toNat)

/-- `get_node_path_locked`, to a depth of at most `fuel` nodes. -/
def getNodePathLocked (g : Graph) : Nat → NodeId → Buffer → SizeT → Option (SizeT × Buffer)
  | 0, _, _, _ => none
  | fuel + 1, n, buf, bufsize => do
      let node ← g n
      let name := node.pathName
      let namelen := node.pathNamelen
      if bufsize < namelen + 1 then some (-1, buf)
      else
        match node.parent, node.graftPath with
        | some parent, none => do
            let (pathlen, buf) ← getNodePathLocked g fuel parent buf (bufsize - namelen - 1)
            if pathlen.slt 0 then some (-1, buf)
            else
              some (finishPath (Function.update buf pathlen.toNat slash) (pathlen + 1) name namelen)
        | _, _ => some (finishPath buf 0 name namelen)

/-! ### What has to hold -/

/-- The names from the nearest graft, or else the root, down to the node. -/
inductive NamesTo (g : Graph) : NodeId → List Bytes → Prop
  | top {n : NodeId} {node : Node} (hnode : g n = some node)
      (htop : node.parent = none ∨ node.graftPath.isSome) : NamesTo g n [node.pathName]
  | under {n parent : NodeId} {node : Node} {names : List Bytes} (hnode : g n = some node)
      (hparent : node.parent = some parent) (hgraft : node.graftPath = none)
      (hnames : NamesTo g parent names) : NamesTo g n (names ++ [node.pathName])

/-- The join of the names by `'/'`. -/
def joinNames (names : List Bytes) : Bytes := List.intercalate [slash] names

/-- An actual name is as long as the name it stands for. -/
def ActualNamesFit (g : Graph) : Prop :=
  ∀ n node, g n = some node → ∀ actualName ∈ node.actualName, actualName.length = node.name.length

/-- The path stands in the buffer with its NUL. -/
def Buffer.Holds (buf : Buffer) (path : Bytes) : Prop :=
  ∀ k < path.length + 1, buf k = (path ++ [0]).getD k 0

/-- What a call on a buffer of the size does for a node with the path: it returns the length of the
path, which it leaves in the buffer, if that has room for it and a NUL, else `-1`; and it leaves
alone what lies beyond the size. -/
structure PathExact (path : Bytes) (buf : Buffer) (bufsize : SizeT) (r : SizeT × Buffer) :
    Prop where
  fits : path.length + 1 ≤ bufsize.toNat → r.1.toInt = path.length ∧ r.2.Holds path
  refused : bufsize.toNat < path.length + 1 → r.1 = -1
  beyond : ∀ k, bufsize.toNat ≤ k → r.2 k = buf k

/-! ### Names and buffers -/

theorem NamesTo.ne_nil {g : Graph} {n : NodeId} {names : List Bytes} (h : NamesTo g n names) :
    names ≠ [] := by
  cases h with
  | top => exact List.cons_ne_nil _ _
  | under => exact List.append_ne_nil_of_right_ne_nil _ (List.cons_ne_nil _ _)

@[simp] theorem joinNames_singleton (name : Bytes) : joinNames [name] = name :=
  List.intercalate_singleton

theorem joinNames_concat {names : List Bytes} (h : names ≠ []) (name : Bytes) :
    joinNames (names ++ [name]) = joinNames names ++ [slash] ++ name := by
  induction names with
  | nil => exact absurd rfl h
  | cons first rest ih =>
      cases rest with
      | nil =>
          rw [joinNames, List.singleton_append, List.intercalate_cons_cons,
            List.intercalate_singleton, joinNames_singleton]
      | cons second rest =>
          calc joinNames (first :: (second :: rest ++ [name]))
              = first ++ [slash] ++ joinNames (second :: rest ++ [name]) :=
                List.intercalate_cons_cons
            _ = first ++ [slash] ++ (joinNames (second :: rest) ++ [slash] ++ name) := by
                rw [ih (List.cons_ne_nil _ _)]
            _ = first ++ [slash] ++ joinNames (second :: rest) ++ [slash] ++ name := by
                simp only [List.append_assoc]
            _ = joinNames (first :: second :: rest) ++ [slash] ++ name := by
                rw [joinNames, joinNames, List.intercalate_cons_cons]

theorem length_joinNames_concat {names : List Bytes} (h : names ≠ []) (name : Bytes) :
    (joinNames (names ++ [name])).length = (joinNames names).length + 1 + name.length := by
  rw [joinNames_concat h, List.length_append, List.length_append, List.length_singleton]

theorem Node.pathNamelen_eq {g : Graph} {n : NodeId} {node : Node} (hfit : ActualNamesFit g)
    (hnode : g n = some node) : node.pathNamelen = BitVec.ofNat 32 node.pathName.length := by
  rw [Node.pathNamelen, Node.pathName]
  cases node.graftPath with
  | some graftPath => rfl
  | none =>
      show BitVec.ofNat 32 node.name.length = BitVec.ofNat 32 (node.actualName.getD _).length
      cases hactual : node.actualName with
      | none => rfl
      | some actualName =>
          rw [Option.getD_some, hfit n node hnode actualName hactual]

theorem Buffer.memcpy_beyond (buf : Buffer) (start : Nat) (name : Bytes) (n : Nat) {k : Nat}
    (hk : start + n ≤ k) : buf.memcpy start name n k = buf k := by
  rw [Buffer.memcpy, if_neg]
  omega

theorem Buffer.holds_memcpy {buf : Buffer} {front name : Bytes}
    (hfront : ∀ k < front.length, buf k = front.getD k 0) :
    (buf.memcpy front.length name (name.length + 1)).Holds (front ++ name) := by
  intro k hk
  rw [List.length_append] at hk
  rw [Buffer.memcpy, List.append_assoc]
  split
  · rename_i hin
    rw [List.getD_append_right _ _ _ _ hin.1]
  · rename_i hout
    have hlt : k < front.length := by omega
    rw [List.getD_append _ _ _ _ hlt, hfront k hlt]

/-! ### Sizes -/

theorem toNat_one : (1 : SizeT).toNat = 1 := rfl

theorem toNat_length {n : Nat} (hn : n + 1 < 2 ^ 32) :
    (BitVec.ofNat 32 n).toNat = n ∧ (BitVec.ofNat 32 n + 1).toNat = n + 1 := by
  constructor
  · rw [BitVec.toNat_ofNat]
    omega
  · rw [BitVec.toNat_add, BitVec.toNat_ofNat, toNat_one]
    omega

theorem toNat_left {bufsize : SizeT} {n : Nat} (hn : n + 1 ≤ bufsize.toNat) :
    (bufsize - BitVec.ofNat 32 n - 1).toNat = bufsize.toNat - n - 1 := by
  have hlt := bufsize.isLt
  rw [BitVec.toNat_sub, BitVec.toNat_sub, BitVec.toNat_ofNat, toNat_one]
  omega

theorem toInt_length {w : SizeT} {n : Nat} (hw : w.toNat = n) (hn : n < 2 ^ 31) :
    w.toInt = n := by
  rw [BitVec.toInt_eq_toNat_cond, hw]
  omega

/-! ### One node -/

variable {g : Graph} {n : NodeId} {buf : Buffer} {bufsize : SizeT}

/-- A path that fits is there once the last name is copied behind what stands in the buffer. -/
theorem finishPath_exact {buf' : Buffer} {front name : Bytes} {pathlen namelen : SizeT}
    (hpathlen : pathlen.toNat = front.length) (hnamelen : namelen = BitVec.ofNat 32 name.length)
    (hfits : (front ++ name).length + 1 ≤ bufsize.toNat)
    (hsmall : (front ++ name).length + 1 < 2 ^ 31)
    (hfront : ∀ k < front.length, buf' k = front.getD k 0)
    (hbeyond : ∀ k, bufsize.toNat ≤ k → buf' k = buf k) :
    PathExact (front ++ name) buf bufsize (finishPath buf' pathlen name namelen) := by
  have hlen : (front ++ name).length = front.length + name.length := List.length_append
  obtain ⟨hname, hnul⟩ := toNat_length (show name.length + 1 < 2 ^ 32 by omega)
  have hcopied : (finishPath buf' pathlen name namelen).2 =
      buf'.memcpy front.length name (name.length + 1) := by
    rw [finishPath, hpathlen, hnamelen, hnul]
  have hret : (finishPath buf' pathlen name namelen).1.toNat = (front ++ name).length := by
    rw [finishPath, hnamelen, BitVec.toNat_add, hpathlen, hname]
    omega
  apply PathExact.mk
  · intro _
    rw [hcopied]
    exact ⟨toInt_length hret (by omega), Buffer.holds_memcpy hfront⟩
  · intro hlong
    omega
  · intro k hk
    rw [hcopied, Buffer.memcpy_beyond _ _ _ _ (by omega)]
    exact hbeyond k hk

/-- Where the path is refused nothing beyond the buffer has been written. -/
theorem refused_exact {path : Bytes} {buf' : Buffer} (hlong : bufsize.toNat < path.length + 1)
    (hbeyond : ∀ k, bufsize.toNat ≤ k → buf' k = buf k) :
    PathExact path buf bufsize (-1, buf') := by
  apply PathExact.mk
  · intro hfits
    omega
  · intro _
    rfl
  · exact hbeyond

theorem PathExact.slt_iff {path : Bytes} {r : SizeT × Buffer} (h : PathExact path buf bufsize r) :
    r.1.slt 0 ↔ bufsize.toNat < path.length + 1 := by
  have hminus : (-1 : SizeT).toInt = -1 := by decide
  have hzero : (0 : SizeT).toInt = 0 := by decide
  rw [BitVec.slt_iff_toInt_lt, hzero]
  rcases Nat.lt_or_ge bufsize.toNat (path.length + 1) with hlong | hfits
  · rw [h.refused hlong, hminus]
    omega
  · rw [(h.fits hfits).1]
    omega

theorem getNodePathLocked_top {node : Node} (hnode : g n = some node)
    (htop : node.parent = none ∨ node.graftPath.isSome) (fuel : Nat) (buf : Buffer)
    (bufsize : SizeT) :
    getNodePathLocked g (fuel + 1) n buf bufsize =
      some (if bufsize < node.pathNamelen + 1 then (-1, buf)
        else finishPath buf 0 node.pathName node.pathNamelen) := by
  rw [getNodePathLocked, hnode, Option.bind_eq_bind, Option.bind_some, apply_ite some]
  dsimp only
  congr 1
  split
  · rename_i hparent hgraft
    rw [hparent, hgraft] at htop
    rcases htop with htop | htop <;> cases htop
  · rfl

theorem getNodePathLocked_under {parent : NodeId} {node : Node} (hnode : g n = some node)
    (hparent : node.parent = some parent) (hgraft : node.graftPath = none) (fuel : Nat)
    (buf : Buffer) (bufsize : SizeT) :
    getNodePathLocked g (fuel + 1) n buf bufsize =
      if bufsize < node.pathNamelen + 1 then some (-1, buf)
      else
        (getNodePathLocked g fuel parent buf (bufsize - node.pathNamelen - 1)).map fun r =>
          if r.1.slt 0 then (-1, r.2)
          else
            finishPath (Function.update r.2 r.1.toNat slash) (r.1 + 1) node.pathName
              node.pathNamelen := by
  rw [getNodePathLocked, hnode, Option.bind_eq_bind, Option.bind_some]
  dsimp only
  rw [hparent, hgraft]
  dsimp only
  congr 1
  cases getNodePathLocked g fuel parent buf (bufsize - node.pathNamelen - 1) with
  | none => rfl
  | some r => exact (apply_ite some _ _ _).symm

/-! ### The whole path -/

/-- The check of the size, without wrapping. -/
theorem lt_pathNamelen_iff {node : Node} (hfit : ActualNamesFit g) (hnode : g n = some node)
    (hlen : node.pathName.length + 1 < 2 ^ 32) :
    bufsize < node.pathNamelen + 1 ↔ bufsize.toNat < node.pathName.length + 1 := by
  rw [Node.pathNamelen_eq hfit hnode, BitVec.lt_def, (toNat_length hlen).2]

/-- The slash takes the place of the NUL. -/
theorem Buffer.Holds.update_slash {path : Bytes} (h : buf.Holds path) :
    ∀ k < (path ++ [slash]).length,
      Function.update buf path.length slash k = (path ++ [slash]).getD k 0 := by
  intro k hk
  rw [List.length_append, List.length_singleton] at hk
  rcases Nat.lt_succ_iff_lt_or_eq.1 hk with hlt | rfl
  · rw [Function.update_of_ne (by omega), h k (by omega), List.getD_append _ _ _ _ hlt,
      List.getD_append _ _ _ _ hlt]
  · rw [Function.update_self, List.getD_append_right _ _ _ _ (Nat.le_refl _), Nat.sub_self]
    rfl

/-- A name goes behind the path of the parent, if that was not refused. -/
theorem pathExact_concat {path name : Bytes} {r : SizeT × Buffer}
    (hspace : bufsize.toNat + ((path ++ [slash] ++ name).length + 1) < 2 ^ 32)
    (hfits : name.length + 1 ≤ bufsize.toNat)
    (h : PathExact path buf (bufsize - BitVec.ofNat 32 name.length - 1) r) :
    PathExact (path ++ [slash] ++ name) buf bufsize
      (if r.1.slt 0 then (-1, r.2)
        else finishPath (Function.update r.2 r.1.toNat slash) (r.1 + 1) name
          (BitVec.ofNat 32 name.length)) := by
  have hleft := toNat_left hfits
  have hlength : (path ++ [slash] ++ name).length = path.length + 1 + name.length := by
    rw [List.length_append, List.length_append, List.length_singleton]
  have hbeyond : ∀ k, bufsize.toNat ≤ k → r.2 k = buf k := by
    intro k hk
    exact h.beyond k (by omega)
  have hslt := h.slt_iff
  rw [hleft] at hslt
  split
  · rename_i hrefused
    rw [hslt] at hrefused
    exact refused_exact (by omega) hbeyond
  · rename_i hparentFits
    rw [hslt] at hparentFits
    obtain ⟨hret, hholds⟩ := h.fits (by omega)
    have hpathlen : r.1.toNat = path.length := by
      rw [BitVec.toInt_eq_toNat_cond] at hret
      have := r.1.isLt
      omega
    rw [hpathlen]
    apply finishPath_exact
    · rw [BitVec.toNat_add, hpathlen, toNat_one, List.length_append, List.length_singleton]
      omega
    · rfl
    · omega
    · omega
    · exact hholds.update_slash
    · intro k hk
      rw [Function.update_of_ne (by omega)]
      exact hbeyond k hk

/-- The path of a node is exact or refused in a buffer of every size. The names of the path and the
buffer are different objects of one address space, so their sizes add up to less than the space. -/
theorem getNodePathLocked_total {names : List Bytes} (hnames : NamesTo g n names)
    (hfit : ActualNamesFit g) (buf : Buffer) (bufsize : SizeT)
    (hspace : bufsize.toNat + ((joinNames names).length + 1) < 2 ^ 32) {fuel : Nat}
    (hfuel : names.length ≤ fuel) :
    ∃ r, getNodePathLocked g fuel n buf bufsize = some r ∧
      PathExact (joinNames names) buf bufsize r := by
  induction hnames generalizing bufsize fuel with
  | @top n node hnode htop =>
      obtain ⟨fuel, rfl⟩ := Nat.exists_eq_add_of_le' hfuel
      rw [joinNames_singleton] at hspace ⊢
      have hshort : bufsize < node.pathNamelen + 1 ↔
          bufsize.toNat < node.pathName.length + 1 :=
        lt_pathNamelen_iff hfit hnode (by omega)
      refine ⟨_, getNodePathLocked_top hnode htop fuel buf bufsize, ?_⟩
      split
      · rename_i hlong
        exact refused_exact (hshort.1 hlong) fun _ _ => rfl
      · rename_i hfits
        rw [hshort] at hfits
        apply finishPath_exact (show (0 : SizeT).toNat = ([] : Bytes).length from rfl)
          (Node.pathNamelen_eq hfit hnode)
        · exact Nat.not_lt.1 hfits
        · rw [List.nil_append]
          omega
        · intro k hk
          exact absurd hk (Nat.not_lt_zero k)
        · intro _ _
          rfl
  | @under n parent node names hnode hparent hgraft hnames ih =>
      rw [List.length_append, List.length_singleton] at hfuel
      obtain ⟨fuel, rfl⟩ := Nat.exists_eq_add_of_le' (Nat.le_of_add_left_le hfuel)
      have hjoin := length_joinNames_concat hnames.ne_nil node.pathName
      have hshort : bufsize < node.pathNamelen + 1 ↔
          bufsize.toNat < node.pathName.length + 1 :=
        lt_pathNamelen_iff hfit hnode (by omega)
      rw [getNodePathLocked_under hnode hparent hgraft]
      split
      · rename_i hlong
        rw [hshort] at hlong
        exact ⟨(-1, buf), rfl, refused_exact (by omega) fun _ _ => rfl⟩
      · rename_i hfits
        rw [hshort, Nat.not_lt] at hfits
        rw [Node.pathNamelen_eq hfit hnode]
        have hleft := toNat_left hfits
        obtain ⟨r, hcall, hexact⟩ := ih
          (bufsize - BitVec.ofNat 32 node.pathName.length - 1)
          (by rw [hleft]; omega) (show names.length ≤ fuel by omega)
        rw [hcall]
        refine ⟨_, rfl, ?_⟩
        rw [joinNames_concat hnames.ne_nil] at hspace ⊢
        exact pathExact_concat hspace hfits hexact

/-! ### The callers -/

/-- The path as the rest of the daemon sees it, without the buffer. -/
theorem getNodePath_of_namesTo {names : List Bytes} (hnames : NamesTo g n names) (bufsize : Nat) :
    getNodePath g n bufsize =
      if bufsize < (joinNames names).length + 1 then none else some (joinNames names) := by
  induction hnames generalizing bufsize with
  | @top n node hnode htop =>
      rw [getNodePath_eq, hnode, Option.bind_eq_bind, Option.bind_some, joinNames_singleton]
      dsimp only
      congr 1
      split
      · rename_i hparent hgraft
        rw [hparent, hgraft] at htop
        rcases htop with htop | htop <;> cases htop
      · rfl
  | @under n parent node names hnode hparent hgraft hnames ih =>
      rw [getNodePath_eq, hnode, Option.bind_eq_bind, Option.bind_some, hparent, hgraft,
        length_joinNames_concat hnames.ne_nil]
      dsimp only
      rw [ih]
      split
      · rename_i hlong
        rw [if_pos (by omega)]
      · rename_i hfits
        split
        · rename_i hlong
          rw [if_pos (by omega)]
          rfl
        · rename_i hparentFits
          rw [if_neg (by omega), joinNames_concat hnames.ne_nil]
          rfl

/-- `lookup_node_and_path_by_id_locked`. -/
def lookupNodeAndPathByIdLocked (g : Graph) (fuel : Nat) (nid : NodeId) (buf : Buffer)
    (bufsize : SizeT) : Option (Option NodeId × Buffer) :=
  if nid = 0 then some (none, buf)
  else do
    let (pathlen, buf) ← getNodePathLocked g fuel nid buf bufsize
    some (if pathlen.slt 0 then none else some nid, buf)

theorem lookupNodeAndPathByIdLocked_eq {path : Bytes} {r : SizeT × Buffer} {fuel : Nat}
    (hn : n ≠ 0) (hcall : getNodePathLocked g fuel n buf bufsize = some r)
    (hexact : PathExact path buf bufsize r) :
    lookupNodeAndPathByIdLocked g fuel n buf bufsize =
      some (if path.length + 1 ≤ bufsize.toNat then some n else none, r.2) := by
  have hslt := hexact.slt_iff
  rw [lookupNodeAndPathByIdLocked, if_neg hn, hcall, Option.bind_eq_bind, Option.bind_some]
  dsimp only
  congr 2
  split
  · rename_i hrefused
    rw [if_neg (Nat.not_le.2 (hslt.1 hrefused))]
  · rename_i hfits
    rw [if_pos (Nat.not_lt.1 (mt hslt.2 hfits))]

/-- The path of a node is exact or refused in a buffer of every size, and the node is handed on
exactly when its path stands there. The names of the path and the buffer are different objects of
one address space, so their sizes add up to less than the space. -/
theorem nodePath_exact_or_refused (g : Graph) (n : NodeId) (names : List Bytes)
    (hnames : NamesTo g n names) (hfit : ActualNamesFit g) (buf : Buffer) (bufsize : SizeT)
    (hspace : bufsize.toNat + ((joinNames names).length + 1) < 2 ^ 32) (fuel : Nat)
    (hfuel : names.length ≤ fuel) :
    ∃ r, getNodePathLocked g fuel n buf bufsize = some r ∧
      PathExact (joinNames names) buf bufsize r ∧
      (n ≠ 0 → lookupNodeAndPathByIdLocked g fuel n buf bufsize =
        some (if (joinNames names).length + 1 ≤ bufsize.toNat then some n else none, r.2)) := by
  obtain ⟨r, hcall, hexact⟩ := getNodePathLocked_total hnames hfit buf bufsize hspace hfuel
  exact ⟨r, hcall, hexact, fun hn => lookupNodeAndPathByIdLocked_eq hn hcall hexact⟩

/-- A directory with the name and the parent. -/
def plainNode (name : Bytes) (parent : Option NodeId) : Node where
  refcount := 2
  gen := 0
  ino := 0
  perm := .root
  userid := 0
  uid := 0
  underAndroid := false
  next := none
  child := none
  parent := parent
  name := name
  actualName := none
  graftPath := none
  deleted := false

/-- A root called `m` with a directory `d` in it. -/
def oneDirectory : Graph :=
  fun n => if n = 1 then some (plainNode [0x6D] none)
    else if n = 2 then some (plainNode [0x64] (some 1)) else none

theorem namesTo_oneDirectory : NamesTo oneDirectory 2 [[0x6D], [0x64]] := by
  have hroot : oneDirectory 1 = some (plainNode [0x6D] none) := rfl
  have hdir : oneDirectory 2 = some (plainNode [0x64] (some 1)) := rfl
  exact .under hdir rfl rfl (.top hroot (.inl rfl))

theorem actualNamesFit_oneDirectory : ActualNamesFit oneDirectory := by
  intro n node hnode actualName hactual
  simp only [oneDirectory] at hnode
  split at hnode
  · cases hnode
    cases hactual
  · split at hnode
    · cases hnode
      cases hactual
    · cases hnode

/-- The path `m/d` in a buffer of four bytes. -/
theorem nodePath_oneDirectory :
    ∃ r, getNodePathLocked oneDirectory 2 2 (fun _ => 0xFF) 4 = some r ∧
      PathExact (joinNames [[0x6D], [0x64]]) (fun _ => 0xFF) 4 r ∧
      ((2 : NodeId) ≠ 0 → lookupNodeAndPathByIdLocked oneDirectory 2 2 (fun _ => 0xFF) 4 =
        some (if (joinNames [[0x6D], [0x64]]).length + 1 ≤ (4 : SizeT).toNat then some 2 else none,
          r.2)) :=
  nodePath_exact_or_refused oneDirectory 2 [[0x6D], [0x64]] namesTo_oneDirectory
    actualNamesFit_oneDirectory (fun _ => 0xFF) 4 (by decide) 2 (by decide)

end LineageA1000.Fuse
