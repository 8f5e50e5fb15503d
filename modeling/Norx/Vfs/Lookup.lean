import Norx.Vfs.Path

/-!
# Directory and Mount Lookup

The read-only half of the file system: finding a name in a directory, finding
the mount placed on an inode, and walking a path through both.

`resolveStep` is the body of the loop that `resolve_mount` and
`parent_and_name_mount` share: go to the named child, and if a mount of this
namespace sits on it under the current mount, continue in that mount. The
lookup is a single one, so of two mounts stacked on one inode only the lower is
ever entered.

## Main definitions

* `findChild`, `findChildSlot`: Looking up a name in a directory.
* `mountNode`, `mountFlags`, `namespaceRoot`: Reading the mount tables.
* `findMountChild`: The mount placed on an inode under a given mount.
* `resolveMount`: The mount and inode a path names.
* `parentAndNameMount`: The same for its directory, with the last component.
* `isDescendant`: Whether an inode lies in the subtree of another.
* `validateHandle`: Whether a file handle still names an open file.

## Theorems

* `resolveFrom_cons_ok`: A walk that arrived took its first step.
-/

namespace Norx

namespace Vfs

def findChildSlot (fs : FileSystem) (parent : Nat) (name : Name) : Option Nat :=
  (fs.inode parent).children.position (fun child => child.used && child.name == name)

def findChild (fs : FileSystem) (parent : Nat) (name : Name) : Option Nat :=
  (findChildSlot fs parent name).map (fun k => (fs.child parent k).inode)

def hasFreeChild (fs : FileSystem) (parent : Nat) : Bool :=
  (fs.inode parent).children.any (fun child => !child.used)

def hasOpenHandle (fs : FileSystem) (inode : Nat) : Bool :=
  fs.handles.any (fun handle => handle.used && handle.inode == inode)

def mountNode (s : Vfs) (id : MountId) : Except Error MountNode :=
  if (s.mounts.get id).used then .ok (s.mounts.get id) else .error .mountNotFound

def mountFlags (s : Vfs) (id : MountId) : Except Error MountFlags := do
  return (← mountNode s id).flags

def namespaceRoot (s : Vfs) (ns : NamespaceId) : Except Error MountId :=
  if (s.namespaces.get ns).used then .ok (s.namespaces.get ns).rootMount
  else .error .namespaceNotFound

variable {s : Vfs}

theorem mountNode_ok {id : MountId} {node : MountNode} (h : mountNode s id = .ok node) :
    (s.mounts.get id).used = true ∧ node = s.mounts.get id := by
  rw [mountNode] at h
  by_cases hused : (s.mounts.get id).used = true
  · rw [if_pos hused] at h
    exact ⟨hused, (Except.ok.inj h).symm⟩
  · rw [if_neg hused] at h
    exact nomatch h

variable {ns : NamespaceId}

theorem namespaceRoot_ok {root : MountId} (h : namespaceRoot s ns = .ok root) :
    (s.namespaces.get ns).used = true ∧ root = (s.namespaces.get ns).rootMount := by
  rw [namespaceRoot] at h
  by_cases hused : (s.namespaces.get ns).used = true
  · rw [if_pos hused] at h
    exact ⟨hused, (Except.ok.inj h).symm⟩
  · rw [if_neg hused] at h
    exact nomatch h

def mountCount (s : Vfs) (ns : NamespaceId) : Nat :=
  s.mounts.count (fun node => node.used && node.ns == ns)

def findMountChild (s : Vfs) (ns : NamespaceId) (parent : MountId) (mountpoint : Nat) :
    Option MountId :=
  s.mounts.position (fun node =>
    node.used && node.ns == ns && node.parent == some parent && node.mountpointInode == mountpoint)

/-- One component of a walk: the child by that name, in the mount placed on it
    if there is one. -/
def resolveStep (s : Vfs) (ns : NamespaceId) (here : MountId × Nat) (component : Name) :
    Except Error (MountId × Nat) :=
  if (s.fs.inode here.2).kind ≠ .directory then .error .notDirectory
  else
    match findChild s.fs here.2 component with
    | none => .error .notFound
    | some inode =>
      -- One look for a mount: a mount placed on a mount is not entered.
      match findMountChild s ns here.1 inode with
      | none => .ok (here.1, inode)
      | some childMount => do return (childMount, (← mountNode s childMount).rootInode)

/-- The walk along a list of components. -/
def resolveFrom (s : Vfs) (ns : NamespaceId) :
    List Name → MountId × Nat → Except Error (MountId × Nat)
  | [], here => .ok here
  | component :: rest, here =>
    match resolveStep s ns here component with
    | .error e => .error e
    | .ok next => resolveFrom s ns rest next

/-- A walk that arrived took its first step. -/
theorem resolveFrom_cons_ok {component : Name} {rest : List Name} {here there : MountId × Nat}
    (h : resolveFrom s ns (component :: rest) here = .ok there) :
    ∃ next, resolveStep s ns here component = .ok next ∧
      resolveFrom s ns rest next = .ok there := by
  rw [resolveFrom] at h
  cases hstep : resolveStep s ns here component with
  | error e =>
    rw [hstep] at h
    exact nomatch h
  | ok next =>
    rw [hstep] at h
    exact ⟨next, rfl, h⟩

def resolveMount (s : Vfs) (path : Path) (ns : NamespaceId) : Except Error (MountId × Nat) := do
  let components ← parsePath path
  let mount ← namespaceRoot s ns
  resolveFrom s ns components (mount, 0)

def parentAndNameMount (s : Vfs) (path : Path) (ns : NamespaceId) :
    Except Error (MountId × Nat × Name) := do
  let components ← parsePath path
  match components.getLast? with
  | none => .error .invalidPath
  | some name =>
    let mount ← namespaceRoot s ns
    let here ← resolveFrom s ns components.dropLast (mount, 0)
    if (s.fs.inode here.2).kind ≠ .directory then .error .notDirectory
    else return (here.1, here.2, name)

/-- The loop of `is_descendant`: follow parents up from `current`. -/
def isDescendantFrom (fs : FileSystem) (ancestor : Nat) : Nat → Nat → Bool
  | 0, _ => true
  | n + 1, current =>
    if current = ancestor then true
    else if current = 0 then false
    else isDescendantFrom fs ancestor n (fs.inode current).parent

def isDescendant (fs : FileSystem) (candidate ancestor : Nat) : Bool :=
  isDescendantFrom fs ancestor maxInodes candidate

def validateHandle (s : Vfs) (handle : FileHandle) : Except Error Nat :=
  if handle.slot ≥ maxOpenHandles
      ∨ (s.fs.handles.get handle.slot).used = false
      ∨ (s.fs.handles.get handle.slot).mount ≠ handle.mount
      ∨ (s.fs.handles.get handle.slot).inode ≠ handle.inode
      ∨ (s.fs.inode handle.inode).used = false
      ∨ (mountNode s handle.mount).toOption.isNone = true
  then .error .invalidHandle
  else .ok handle.slot

end Vfs

end Norx
