import Norx.Lib.Slots

/-!
# VFS Data Model

The tables of the in-kernel file system, as `vfs.rs` declares them: an inode
table with the children of each directory stored in the inode, a table of open
handles, and beside them the mount, namespace and dentry tables. All of them
are static arrays in the source, so the whole state is one record, `Vfs`.

Inode, mount and namespace numbers are the array indices the source stores in
`u16` and `u8` fields. They are plain numbers here: every one of them is
produced by a search of a table far smaller than those types. Each table's
default element is its `EMPTY` slot, so a slot in use is a slot in range.

A `Name` is at most `nameMax` bytes, which the source stores padded with
zeros next to a length; two names are equal there exactly when their bytes
are, so the model keeps the bytes alone and the bound with them.

## Main definitions

* `Inode`, `Child`: A node of the tree and one entry of a directory.
* `MountNode`, `NamespaceSlot`: A mount and a namespace.
* `HandleSlot`, `DentrySlot`: An open file and a held dentry.
-/

namespace Norx

namespace Vfs

def maxInodes : Nat := 32
def maxChildren : Nat := 16
def maxOpenHandles : Nat := 16
def maxMounts : Nat := 8
def maxNamespaces : Nat := 4
def maxDentries : Nat := 16
def maxComponents : Nat := 16
def maxPath : Nat := 256
def nameMax : Nat := 31
def fileMax : Nat := 4096

inductive Error where
  | notMounted
  | alreadyMounted
  | busy
  | invalidPath
  | nameTooLong
  | notFound
  | alreadyExists
  | notDirectory
  | isDirectory
  | notEmpty
  | noSpace
  | permissionDenied
  | readOnly
  | invalidHandle
  | offsetOutOfRange
  | mountNotFound
  | mountPointBusy
  | namespaceNotFound
  | invalidMountTarget
  | propagationDenied
  deriving DecidableEq, Repr

inductive NodeType where
  | directory
  | regular
  deriving DecidableEq, Repr

structure OpenOptions where
  read : Bool
  write : Bool
  create : Bool
  deriving DecidableEq, Repr

namespace OpenOptions

def readOnly : OpenOptions := { read := true, write := false, create := false }

def writeCreate : OpenOptions := { read := false, write := true, create := true }

def readWriteCreate : OpenOptions := { read := true, write := true, create := true }

end OpenOptions

/-- A slot number of the mount table. -/
abbrev MountId := Nat

/-- A slot number of the namespace table. -/
abbrev NamespaceId := Nat

def rootMount : MountId := 0

def rootNamespace : NamespaceId := 0

inductive MountSource where
  | ramfs
  deriving DecidableEq, Repr

inductive Propagation where
  | private_
  | shared
  | slave
  | unbindable
  deriving DecidableEq, Repr

structure MountFlags where
  readOnly : Bool
  noExec : Bool
  noSuid : Bool
  noDev : Bool
  deriving DecidableEq, Repr

namespace MountFlags

def defaults : MountFlags :=
  { readOnly := false, noExec := false, noSuid := false, noDev := false }

def readOnlyMount : MountFlags := { defaults with readOnly := true }

def library : MountFlags :=
  { readOnly := true, noExec := false, noSuid := true, noDev := true }

end MountFlags

/-- A path component: its bytes, at most `nameMax` of them. -/
structure Name where
  bytes : List UInt8
  length_le : bytes.length ≤ nameMax
  deriving DecidableEq

def Name.empty : Name := { bytes := [], length_le := Nat.zero_le _ }

/-- One entry of a directory. -/
structure Child where
  used : Bool
  inode : Nat
  name : Name
  deriving DecidableEq

def Child.empty : Child := { used := false, inode := 0, name := Name.empty }

instance : Inhabited Child := ⟨Child.empty⟩

structure Inode where
  used : Bool
  kind : NodeType
  parent : Nat
  mode : UInt16
  size : Nat
  data : Slots fileMax UInt8
  children : Slots maxChildren Child

def Inode.empty : Inode :=
  { used := false, kind := .regular, parent := 0, mode := 0, size := 0,
    data := Slots.replicate _ 0, children := Slots.replicate _ Child.empty }

def Inode.new (kind : NodeType) (parent : Nat) (mode : UInt16) : Inode :=
  { used := true, kind, parent, mode, size := 0,
    data := Slots.replicate _ 0, children := Slots.replicate _ Child.empty }

instance : Inhabited Inode := ⟨Inode.empty⟩

structure HandleSlot where
  used : Bool
  mount : MountId
  inode : Nat
  deriving DecidableEq

def HandleSlot.empty : HandleSlot := { used := false, mount := rootMount, inode := 0 }

instance : Inhabited HandleSlot := ⟨HandleSlot.empty⟩

structure MountNode where
  used : Bool
  ns : NamespaceId
  parent : Option MountId
  mountpointInode : Nat
  rootInode : Nat
  source : MountSource
  flags : MountFlags
  propagation : Propagation
  dentryReferences : Nat
  deriving DecidableEq

def MountNode.empty : MountNode :=
  { used := false, ns := rootNamespace, parent := none, mountpointInode := 0, rootInode := 0,
    source := .ramfs, flags := MountFlags.defaults, propagation := .private_,
    dentryReferences := 0 }

/-- The mount at the root of a namespace: the whole tree, with no parent. -/
def MountNode.root (ns : NamespaceId) : MountNode :=
  { used := true, ns, parent := none, mountpointInode := 0, rootInode := 0, source := .ramfs,
    flags := MountFlags.defaults, propagation := .private_, dentryReferences := 0 }

instance : Inhabited MountNode := ⟨MountNode.empty⟩

structure NamespaceSlot where
  used : Bool
  rootMount : MountId
  deriving DecidableEq

def NamespaceSlot.empty : NamespaceSlot := { used := false, rootMount := Vfs.rootMount }

instance : Inhabited NamespaceSlot := ⟨NamespaceSlot.empty⟩

structure Dentry where
  mount : MountId
  inode : Nat
  deriving DecidableEq

structure DentrySlot where
  used : Bool
  dentry : Dentry
  deriving DecidableEq

def DentrySlot.empty : DentrySlot :=
  { used := false, dentry := { mount := rootMount, inode := 0 } }

instance : Inhabited DentrySlot := ⟨DentrySlot.empty⟩

/-- What `lookup` hands to its caller. -/
structure DentryHandle where
  dentry : Dentry
  slot : Nat
  deriving DecidableEq

/-- What `open` hands to its caller. The offset lives in the handle, not in
    the handle table. -/
structure FileHandle where
  inode : Nat
  mount : MountId
  slot : Nat
  offset : Nat
  readable : Bool
  writable : Bool
  deriving DecidableEq

structure FileSystem where
  inodes : Slots maxInodes Inode
  handles : Slots maxOpenHandles HandleSlot
  openCount : Nat

/-- An inode table holding nothing but the root directory, and no open
    handles: the state `reset` leaves. -/
def FileSystem.new : FileSystem :=
  { inodes := (Slots.replicate _ Inode.empty).set 0 (Inode.new .directory 0 0o755),
    handles := Slots.replicate _ HandleSlot.empty, openCount := 0 }

end Vfs

/-- The whole state: the file system and the static tables beside it. -/
structure Vfs where
  fs : Vfs.FileSystem
  mounted : Bool
  mounts : Slots Vfs.maxMounts Vfs.MountNode
  namespaces : Slots Vfs.maxNamespaces Vfs.NamespaceSlot
  dentries : Slots Vfs.maxDentries Vfs.DentrySlot

namespace Vfs

/-- The state before anything is mounted. -/
def initial : Vfs :=
  { fs := FileSystem.new, mounted := false, mounts := Slots.replicate _ MountNode.empty,
    namespaces := Slots.replicate _ NamespaceSlot.empty,
    dentries := Slots.replicate _ DentrySlot.empty }

/-- The inode with a given number. -/
def FileSystem.inode (fs : FileSystem) (i : Nat) : Inode := fs.inodes.get i

/-- The entry in a given slot of a given directory. -/
def FileSystem.child (fs : FileSystem) (d k : Nat) : Child := (fs.inode d).children.get k

end Vfs

end Norx
