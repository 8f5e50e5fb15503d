import Norx.Lib.Fallible
import Norx.Vfs.Lookup

/-!
# VFS Operations

The operations of `vfs.rs`, statement by statement. Each is a program over the
whole state whose early returns keep what was written before them.

The three operations that borrow a `FileHandle` mutably run over the state
together with the handle, so an error that had already moved the offset would
show. The two raw copies are described by the interval of the file they touch
(`readSpan`, `writeSpan`); a copy past the end of the buffer would be an
out-of-bounds access in the source.

`read` and `write` open, act and close, ignoring the result of the close. They
return an option and a flag rather than an error, so they are plain state
transformers.

## Main definitions

* `mountRamfs`, `unmountRamfs`: Starting and stopping the root file system.
* `mountInNamespace`, `unmountMount`: Placing and removing a mount.
* `createNamespace`, `destroyNamespace`: Adding and removing a namespace.
* `lookupInNamespace`, `releaseDentry`: Holding and releasing a dentry.
* `openFile`, `close`, `readHandle`, `writeHandle`, `seek`: File handles.
* `chmod`, `mkdir`, `unlink`, `removeDir`, `rename`: Changing the tree.
-/

namespace Norx

namespace Vfs

open Fallible Slots

/-- A program over the whole state. -/
abbrev VfsM := Fallible Vfs Error

def setFs (s : Vfs) (fs : FileSystem) : Vfs := { s with fs }

def FileSystem.setInode (fs : FileSystem) (i : Nat) (inode : Inode) : FileSystem :=
  { fs with inodes := fs.inodes.set i inode }

def FileSystem.setChild (fs : FileSystem) (d k : Nat) (child : Child) : FileSystem :=
  fs.setInode d { fs.inode d with children := (fs.inode d).children.set k child }

def FileSystem.setHandle (fs : FileSystem) (i : Nat) (handle : HandleSlot) : FileSystem :=
  { fs with handles := fs.handles.set i handle }

def setMount (s : Vfs) (id : MountId) (node : MountNode) : Vfs :=
  { s with mounts := s.mounts.set id node }

def setNamespace (s : Vfs) (ns : NamespaceId) (slot : NamespaceSlot) : Vfs :=
  { s with namespaces := s.namespaces.set ns slot }

def setDentry (s : Vfs) (i : Nat) (slot : DentrySlot) : Vfs :=
  { s with dentries := s.dentries.set i slot }

/-! ### Reading back a write -/

variable {i : Nat}

section Tables

variable (fs : FileSystem)

theorem inode_setInode_self (inode : Inode) (h : i < maxInodes) :
    (fs.setInode i inode).inode i = inode :=
  get_set_self fs.inodes inode h

theorem inode_setInode_other {j : Nat} (inode : Inode) (h : j ≠ i) :
    (fs.setInode i inode).inode j = fs.inode j :=
  get_set_other fs.inodes inode h

/-- Past the end of the table a write is lost, so the conditional form needs
    the slot written to be in range. -/
theorem inode_setInode (inode : Inode) (h : i < maxInodes) (j : Nat) :
    (fs.setInode i inode).inode j = if j = i then inode else fs.inode j :=
  get_set fs.inodes inode h j

/-- Writing an entry touches the children of that directory and nothing
    else. -/
theorem inode_setChild {d : Nat} (k : Nat) (child : Child) (hd : d < maxInodes) (i : Nat) :
    (fs.setChild d k child).inode i
      = if i = d then { fs.inode d with children := (fs.inode d).children.set k child }
        else fs.inode i :=
  inode_setInode fs _ hd i

/-- Whatever directory an entry is written to, no inode's other fields
    change. -/
theorem setChild_keeps (d k : Nat) (child : Child) (i : Nat) :
    ∃ children, (fs.setChild d k child).inode i = { fs.inode i with children := children } := by
  -- Past the end of the table nothing is written, and the default inode is read.
  by_cases hd : d < maxInodes
  · rw [inode_setChild fs k child hd]
    by_cases hi : i = d
    · rw [if_pos hi, hi]
      exact ⟨_, rfl⟩
    · rw [if_neg hi]
      exact ⟨(fs.inode i).children, rfl⟩
  · refine ⟨(fs.inode i).children, ?_⟩
    by_cases hi : i = d
    · rw [hi, FileSystem.inode, get_of_ge _ (Nat.not_lt.mp hd), FileSystem.inode,
        get_of_ge _ (Nat.not_lt.mp hd)]
    · exact inode_setInode_other fs _ hi

theorem child_setChild {d k : Nat} (child : Child) (hd : d < maxInodes) (hk : k < maxChildren)
    (d' k' : Nat) :
    (fs.setChild d k child).child d' k' = if d' = d ∧ k' = k then child else fs.child d' k' := by
  rw [FileSystem.child, inode_setChild fs k child hd]
  by_cases hdd : d' = d
  · subst hdd
    rw [if_pos rfl, get_set _ child hk]
    by_cases hkk : k' = k
    · rw [if_pos hkk, if_pos ⟨rfl, hkk⟩]
    · rw [if_neg hkk, if_neg (fun hc => hkk hc.2), FileSystem.child]
  · rw [if_neg hdd, if_neg (fun hc => hdd hc.1), FileSystem.child]

end Tables

/-- A slot in use is a slot in range, the default inode being the empty one. -/
theorem lt_of_inode_used {fs : FileSystem} (h : (fs.inode i).used = true) : i < maxInodes := by
  by_contra hc
  rw [FileSystem.inode, get_of_ge fs.inodes (Nat.not_lt.mp hc)] at h
  exact absurd h (by decide)

theorem lt_of_child_used {fs : FileSystem} {d k : Nat} (h : (fs.child d k).used = true) :
    d < maxInodes ∧ k < maxChildren := by
  constructor
  · by_contra hc
    rw [FileSystem.child, FileSystem.inode, get_of_ge fs.inodes (Nat.not_lt.mp hc)] at h
    change (((Slots.replicate maxChildren Child.empty) : Slots maxChildren Child).get k).used
      = true at h
    rw [show Child.empty = default from rfl, get_replicate_default] at h
    exact absurd h (by decide)
  · by_contra hc
    rw [FileSystem.child, get_of_ge _ (Nat.not_lt.mp hc)] at h
    exact absurd h (by decide)

/-- Run a program only while the root file system is mounted. -/
def withFs {α : Type} (f : VfsM α) : VfsM α := do
  if (← read (·.mounted)) = false then fail .notMounted
  f

/-! ### The root file system -/

/-- The state `mount_ramfs` builds: an empty tree, one mount, one namespace. -/
def freshRamfs : Vfs :=
  { fs := FileSystem.new, mounted := true,
    mounts := (Slots.replicate _ MountNode.empty).set rootMount (MountNode.root rootNamespace),
    namespaces := (Slots.replicate _ NamespaceSlot.empty).set rootNamespace
      { used := true, rootMount := Vfs.rootMount },
    dentries := Slots.replicate _ DentrySlot.empty }

def mountRamfs : VfsM Unit := do
  if (← read (·.mounted)) = true then fail .alreadyMounted
  modify (fun _ => freshRamfs)

def unmountRamfs : VfsM Unit := do
  if (← read (·.mounted)) = false then fail .notMounted
  if (← read (·.fs.openCount)) ≠ 0 then fail .busy
  modify (fun s => { s with mounted := false })

/-! ### Mounts and namespaces -/

def mountInNamespace (ns : NamespaceId) (source : MountSource) (target : Path)
    (flags : MountFlags) (propagation : Propagation) : VfsM MountId := withFs do
  if source ≠ .ramfs then fail .invalidMountTarget
  let (parent, mountpoint) ← lift (resolveMount · target ns)
  if mountpoint = 0 ∨ (← read (fun s => (s.fs.inode mountpoint).kind)) ≠ .directory then
    fail .invalidMountTarget
  let parentNode ← lift (mountNode · parent)
  if parentNode.propagation = .unbindable
      ∨ (propagation = .slave ∧ parentNode.propagation = .private_) then
    fail .propagationDenied
  -- Only a mount placed on this inode under the same parent counts as taken.
  if (← read (fun s => (findMountChild s ns parent mountpoint).isSome)) = true then
    fail .mountPointBusy
  let index ← lookup .noSpace (fun s => s.mounts.position (fun node => !node.used))
  -- The mount shows the directory it is placed on.
  modify (·.setMount index
    { used := true, ns, parent := some parent, mountpointInode := mountpoint,
      rootInode := mountpoint, source, flags, propagation, dentryReferences := 0 })
  return index

def mountWithPropagation (ns : NamespaceId) (source : MountSource) (target : Path)
    (flags : MountFlags) (propagation : Propagation) : VfsM MountId :=
  mountInNamespace ns source target flags propagation

def mount (source : MountSource) (target : Path) (flags : MountFlags) : VfsM MountId :=
  mountWithPropagation rootNamespace source target flags .private_

def unmountMount (id : MountId) : VfsM Unit := withFs do
  let node ← lift (mountNode · id)
  if (← lift (namespaceRoot · node.ns)) = id then fail .busy
  if node.dentryReferences ≠ 0
      ∨ (← read (fun s =>
          s.fs.handles.any (fun handle => handle.used && handle.mount == id))) = true
      ∨ (← read (fun s => s.mounts.any (fun child => child.used && child.parent == some id))) = true
  then fail .busy
  modify (·.setMount id MountNode.empty)

/-- The lowest unused slot, slot zero left out. -/
def positionFromOne {n : Nat} {α : Type} [Inhabited α] (t : Slots n α) (p : α → Bool) :
    Option Nat :=
  (List.range n).find? (fun i => decide (1 ≤ i) && p (t.get i))

def createNamespace : VfsM NamespaceId := do
  if (← read (·.mounted)) = false then fail .notMounted
  let ns ← lookup .noSpace (fun s => positionFromOne s.namespaces (fun slot => !slot.used))
  let mount ← lookup .noSpace (fun s => positionFromOne s.mounts (fun node => !node.used))
  modify (·.setMount mount (MountNode.root ns))
  modify (·.setNamespace ns { used := true, rootMount := mount })
  return ns

def destroyNamespace (ns : NamespaceId) : VfsM Unit := do
  if ns = rootNamespace then fail .busy
  withFs do
    let root ← lift (namespaceRoot · ns)
    if (← read (fun s => s.mounts.any (fun node =>
          node.used && node.ns == ns && node.dentryReferences != 0))) = true
        ∨ (← read (fun s => s.fs.handles.any (fun handle => handle.used
            && ((s.mounts.get handle.mount).used && (s.mounts.get handle.mount).ns == ns)))) = true
    then fail .busy
    -- Of the namespace's mounts only the root is cleared.
    modify (·.setMount root MountNode.empty)
    modify (·.setNamespace ns NamespaceSlot.empty)

/-! ### Dentries -/

def lookupInNamespace (ns : NamespaceId) (path : Path) : VfsM DentryHandle := withFs do
  let (mount, inode) ← lift (resolveMount · path ns)
  let slot ← lookup .noSpace (fun s => s.dentries.position (fun entry => !entry.used))
  modify (·.setDentry slot { used := true, dentry := { mount, inode } })
  modify (fun s => s.setMount mount
    { s.mounts.get mount with dentryReferences := (s.mounts.get mount).dentryReferences + 1 })
  return { dentry := { mount, inode }, slot }

def lookup (path : Path) : VfsM DentryHandle := lookupInNamespace rootNamespace path

def releaseDentry (handle : DentryHandle) : VfsM Unit := withFs do
  let entry ← read (fun s => s.dentries.get handle.slot)
  if handle.slot ≥ maxDentries ∨ entry.used = false ∨ entry.dentry ≠ handle.dentry then
    fail .invalidHandle
  modify (·.setDentry handle.slot DentrySlot.empty)
  modify (fun s => s.setMount handle.dentry.mount
    { s.mounts.get handle.dentry.mount with
      dentryReferences := (s.mounts.get handle.dentry.mount).dentryReferences - 1 })

/-! ### The tree -/

def addChild (parent : Nat) (name : Name) (inode : Nat) : VfsM Unit := do
  let slot ← Fallible.lookup .noSpace
    (fun s => (s.fs.inode parent).children.position (fun child => !child.used))
  modify (fun s => s.setFs (s.fs.setChild parent slot { used := true, inode, name }))

def removeChild (parent : Nat) (name : Name) : VfsM Nat := do
  let slot ← Fallible.lookup .notFound (fun s => findChildSlot s.fs parent name)
  let inode ← read (fun s => (s.fs.child parent slot).inode)
  modify (fun s => s.setFs (s.fs.setChild parent slot Child.empty))
  return inode

def createNodeAt (parent : Nat) (name : Name) (kind : NodeType) (mode : UInt16) : VfsM Nat := do
  if (← read (fun s => (findChild s.fs parent name).isSome)) = true then fail .alreadyExists
  if (← read (fun s => (s.fs.inode parent).kind)) ≠ .directory then fail .notDirectory
  if (← read (fun s => hasFreeChild s.fs parent)) = false then fail .noSpace
  let inode ← Fallible.lookup .noSpace (fun s => s.fs.inodes.position (fun inode => !inode.used))
  modify (fun s => s.setFs (s.fs.setInode inode (Inode.new kind parent mode)))
  addChild parent name inode
  return inode

def chmod (path : Path) (mode : UInt16) : VfsM Unit := withFs do
  let (mount, inode) ← lift (resolveMount · path rootNamespace)
  if (← lift (mountFlags · mount)).readOnly = true then fail .readOnly
  modify (fun s => s.setFs (s.fs.setInode inode { s.fs.inode inode with mode := mode &&& 0o777 }))

def mkdir (path : Path) : VfsM Unit := withFs do
  let (mount, parent, name) ← lift (parentAndNameMount · path rootNamespace)
  if (← lift (mountFlags · mount)).readOnly = true then fail .readOnly
  let _ ← createNodeAt parent name .directory 0o755
  return ()

def unlink (path : Path) : VfsM Unit := withFs do
  let (mount, parent, name) ← lift (parentAndNameMount · path rootNamespace)
  if (← lift (mountFlags · mount)).readOnly = true then fail .readOnly
  let child ← Fallible.lookup .notFound (fun s => findChild s.fs parent name)
  if (← read (fun s => (s.fs.inode child).kind)) = .directory then fail .isDirectory
  if (← read (fun s => hasOpenHandle s.fs child)) = true then fail .busy
  let _ ← removeChild parent name
  modify (fun s => s.setFs (s.fs.setInode child Inode.empty))

def removeDir (path : Path) : VfsM Unit := withFs do
  let (mount, parent, name) ← lift (parentAndNameMount · path rootNamespace)
  if (← lift (mountFlags · mount)).readOnly = true then fail .readOnly
  let child ← Fallible.lookup .notFound (fun s => findChild s.fs parent name)
  if (← read (fun s => (s.fs.inode child).kind)) ≠ .directory then fail .notDirectory
  -- Whether a mount is placed on the directory is not asked.
  if (← read (fun s => (s.fs.inode child).children.any (fun entry => entry.used))) = true then
    fail .notEmpty
  let _ ← removeChild parent name
  modify (fun s => s.setFs (s.fs.setInode child Inode.empty))

def rename (oldPath newPath : Path) : VfsM Unit := withFs do
  let (oldMount, oldParent, oldName) ← lift (parentAndNameMount · oldPath rootNamespace)
  let inode ← Fallible.lookup .notFound (fun s => findChild s.fs oldParent oldName)
  let (newMount, newParent, newName) ← lift (parentAndNameMount · newPath rootNamespace)
  if oldMount ≠ newMount then fail .invalidPath
  if (← lift (mountFlags · oldMount)).readOnly = true then fail .readOnly
  if (← read (fun s => (findChild s.fs newParent newName).isSome)) = true then
    fail .alreadyExists
  if (← read (fun s => (s.fs.inode inode).kind)) = .directory
      ∧ (← read (fun s => isDescendant s.fs newParent inode)) = true then
    fail .invalidPath
  if oldParent = newParent then
    let slot ← Fallible.lookup .notFound (fun s => findChildSlot s.fs oldParent oldName)
    modify (fun s => s.setFs
      (s.fs.setChild oldParent slot { s.fs.child oldParent slot with name := newName }))
  else
    if (← read (fun s => hasFreeChild s.fs newParent)) = false then fail .noSpace
    -- There is room for the entry, so putting it back is never needed.
    let _ ← removeChild oldParent oldName
    match (← attempt (addChild newParent newName inode)) with
    | .error _ =>
      let _ ← attempt (addChild oldParent oldName inode)
      fail .noSpace
    | .ok _ =>
      modify (fun s => s.setFs
        (s.fs.setInode inode { s.fs.inode inode with parent := newParent }))

/-! ### File handles -/

/-- The node `open` works on: the one the path names, or a new regular file
    where none exists and `create` is set. -/
def openTarget (path : Path) (options : OpenOptions) : VfsM (MountId × Nat) := do
  match (← read (resolveMount · path rootNamespace)) with
  | .ok result => return result
  | .error e =>
    if e = .notFound ∧ options.create = true then
      let (mount, parent, name) ← lift (parentAndNameMount · path rootNamespace)
      if (← lift (mountFlags · mount)).readOnly = true then fail .readOnly
      -- From here on the file exists, whatever the rest of `open` returns.
      let inode ← createNodeAt parent name .regular 0o644
      return (mount, inode)
    else fail e

/-- The second half of `open`: check the node's kind and mode and take a
    handle slot for it. -/
def openNode (options : OpenOptions) (here : MountId × Nat) : VfsM FileHandle := do
  let node ← read (fun s => s.fs.inode here.2)
  if node.kind = .directory then fail .isDirectory
  if options.read = true ∧ node.mode &&& 0o444 = 0 then fail .permissionDenied
  if options.write = true ∧ node.mode &&& 0o222 = 0 then fail .permissionDenied
  let slot ← Fallible.lookup .noSpace (fun s => s.fs.handles.position (fun handle => !handle.used))
  modify (fun s => s.setFs
    { s.fs.setHandle slot { used := true, mount := here.1, inode := here.2 } with
      openCount := s.fs.openCount + 1 })
  return { inode := here.2, mount := here.1, slot, offset := 0, readable := options.read,
           writable := options.write }

def openFile (path : Path) (options : OpenOptions) : VfsM FileHandle := withFs do
  let here ← openTarget path options
  if options.write = true ∨ options.create = true then
    if (← lift (mountFlags · here.1)).readOnly = true then fail .readOnly
  openNode options here

def close (handle : FileHandle) : VfsM Unit := withFs do
  let slot ← lift (validateHandle · handle)
  modify (fun s => s.setFs
    { s.fs.setHandle slot HandleSlot.empty with openCount := s.fs.openCount - 1 })

/-- The state together with the handle an operation borrows. -/
structure Borrowed where
  vfs : Vfs
  handle : FileHandle

/-- A program over the state and a borrowed handle. -/
abbrev HandleM := Fallible Borrowed Error

/-- The interval of the file a read of up to `length` bytes copies, as its
    start and its length. -/
def readSpan (s : Vfs) (handle : FileHandle) (length : Nat) : Nat × Nat :=
  (handle.offset, min ((s.fs.inode handle.inode).size - handle.offset) length)

/-- The interval of the file a write of `length` bytes copies. -/
def writeSpan (handle : FileHandle) (length : Nat) : Nat × Nat := (handle.offset, length)

/-- The contents of an interval of a file. -/
def copyOut (data : Slots fileMax UInt8) (span : Nat × Nat) : List UInt8 :=
  (List.range span.2).map (fun j => data.get (span.1 + j))

/-- Overwrite a file from an offset on. -/
def copyIn (data : Slots fileMax UInt8) (offset : Nat) (input : List UInt8) :
    Slots fileMax UInt8 :=
  fun j => if offset ≤ j.val then (input[j.val - offset]?).getD (data j) else data j

def readHandle (length : Nat) : HandleM (List UInt8) := do
  if (← read (·.vfs.mounted)) = false then fail .notMounted
  let _ ← lift (fun b => validateHandle b.vfs b.handle)
  if (← read (·.handle.readable)) = false then fail .permissionDenied
  let span ← read (fun b => readSpan b.vfs b.handle length)
  let output ← read (fun b => copyOut (b.vfs.fs.inode b.handle.inode).data span)
  modify (fun b => { b with handle := { b.handle with offset := b.handle.offset + span.2 } })
  return output

def writeHandle (input : List UInt8) : HandleM Nat := do
  if (← read (·.vfs.mounted)) = false then fail .notMounted
  let _ ← lift (fun b => validateHandle b.vfs b.handle)
  if (← lift (fun b => mountFlags b.vfs b.handle.mount)).readOnly = true then fail .readOnly
  if (← read (·.handle.writable)) = false then fail .permissionDenied
  let span ← read (fun b => writeSpan b.handle input.length)
  if span.1 + span.2 > fileMax then fail .noSpace
  modify (fun b =>
    let inode := b.vfs.fs.inode b.handle.inode
    { vfs := b.vfs.setFs (b.vfs.fs.setInode b.handle.inode
        { inode with data := copyIn inode.data span.1 input,
                     size := max inode.size (span.1 + span.2) }),
      handle := { b.handle with offset := span.1 + span.2 } })
  return input.length

def seek (offset : Int) : HandleM Nat := do
  if (← read (·.vfs.mounted)) = false then fail .notMounted
  let _ ← lift (fun b => validateHandle b.vfs b.handle)
  let current ← read (·.handle.offset)
  if offset < 0 ∧ current < offset.natAbs then fail .offsetOutOfRange
  let next := if offset < 0 then current - offset.natAbs else current + offset.natAbs
  if next > fileMax then fail .offsetOutOfRange
  modify (fun b => { b with handle := { b.handle with offset := next } })
  return next

/-! ### Whole-file access -/

/-- `read`: open, read at most 255 bytes, close. -/
def readPath (path : Path) (s : Vfs) : Option (List UInt8) × Vfs :=
  match openFile path OpenOptions.readOnly s with
  | (.error _, s) => (none, s)
  | (.ok handle, s) =>
    let (result, borrowed) := readHandle 255 { vfs := s, handle }
    (result.toOption, (close borrowed.handle borrowed.vfs).2)

/-- `write`: open for writing, creating the file if need be, write, close. -/
def writePath (path : Path) (input : List UInt8) (s : Vfs) : Bool × Vfs :=
  match openFile path OpenOptions.writeCreate s with
  | (.error _, s) => (false, s)
  | (.ok handle, s) =>
    let (result, borrowed) := writeHandle input { vfs := s, handle }
    (result.toOption.isSome, (close borrowed.handle borrowed.vfs).2)

end Vfs

end Norx
