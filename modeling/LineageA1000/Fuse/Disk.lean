import LineageA1000.Lib.Bytes
import LineageA1000.Lib.Errno

/-!
# The underlying directory tree

The file system below the daemon, as far as the daemon's system calls see it: absolute paths and
what is at them. The calls behave as POSIX has them on one directory tree. A call returns the tree
it leaves, or the error number it fails with.
-/

namespace LineageA1000.Fuse

inductive Kind where
  | file
  | dir
  deriving DecidableEq, Repr

structure Disk where
  entries : List (Bytes × Kind)
  deriving DecidableEq, Repr

/-- `'/'`. -/
abbrev slash : UInt8 := 0x2F

namespace Disk

def kind (d : Disk) (path : Bytes) : Option Kind := d.entries.lookup path

/-- The path of the directory that a path names an entry of. -/
def dirname (path : Bytes) : Bytes := ((path.reverse.dropWhile (· ≠ slash)).drop 1).reverse

/-- The names in a directory, in the order `readdir` returns them. -/
def readdir (d : Disk) (path : Bytes) : List Bytes :=
  d.entries.filterMap fun e =>
    if dirname e.1 = path then some (e.1.drop (path.length + 1)) else none

def create (k : Kind) (path : Bytes) (d : Disk) : Except Int Disk :=
  if (d.kind path).isSome then .error EEXIST
  else
    match d.kind (dirname path) with
    | none => .error ENOENT
    | some .file => .error ENOTDIR
    | some .dir => .ok ⟨d.entries ++ [(path, k)]⟩

def mknod : Bytes → Disk → Except Int Disk := create .file

def mkdir : Bytes → Disk → Except Int Disk := create .dir

def erase (d : Disk) (path : Bytes) : Disk := ⟨d.entries.filter fun e => e.1 ≠ path⟩

def unlink (path : Bytes) (d : Disk) : Except Int Disk :=
  match d.kind path with
  | none => .error ENOENT
  | some .dir => .error EISDIR
  | some .file => .ok (d.erase path)

def rmdir (path : Bytes) (d : Disk) : Except Int Disk :=
  match d.kind path with
  | none => .error ENOENT
  | some .file => .error ENOTDIR
  | some .dir => if d.readdir path = [] then .ok (d.erase path) else .error ENOTEMPTY

/-- The path under which an entry is found after a directory or file has moved. -/
def movedPath (old new path : Bytes) : Bytes :=
  if path = old ∨ (old ++ [slash]) <+: path then new ++ path.drop old.length else path

def move (old new : Bytes) (d : Disk) : Disk :=
  ⟨(d.erase new).entries.map fun e => (movedPath old new e.1, e.2)⟩

def rename (old new : Bytes) (d : Disk) : Except Int Disk :=
  match d.kind old with
  | none => .error ENOENT
  | some k =>
      if old = new then .ok d
      else if (old ++ [slash]) <+: new then .error EINVAL
      else
        match d.kind (dirname new) with
        | none => .error ENOENT
        | some .file => .error ENOTDIR
        | some .dir =>
            match d.kind new, k with
            | none, _ => .ok (d.move old new)
            | some .file, .file => .ok (d.move old new)
            | some .file, .dir => .error ENOTDIR
            | some .dir, .file => .error EISDIR
            | some .dir, .dir =>
                if d.readdir new = [] then .ok (d.move old new) else .error ENOTEMPTY

/-- `open` with `O_CREAT | O_EXCL`, where a file that is there already is fine. -/
def touch (path : Bytes) (d : Disk) : Except Int Disk :=
  if (d.kind path).isSome then .ok d else d.create .file path

end Disk

end LineageA1000.Fuse
