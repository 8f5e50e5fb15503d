import Norx.Vfs.Ops

/-!
# What the Operations Can Do

Every operation of the file system either leaves the state as it found it or
makes one of a small number of changes to the tables. `Change` lists those
changes, each with everything the code has checked by the time it makes it, and
each operation is then shown once to make only changes from the list. All
invariants of the file system are proved about `Change`, never about the
programs.

Two of the changes remove something other tables may still refer to: removing
a directory, which a mount may sit on, and destroying a namespace, which may
still own mounts. The code makes them without looking. `Policy` is a parameter
that says when they are allowed, together with whether mounts and handles may
come and go at all and whether the root file system may be mounted afresh; a
result that needs the missing check is stated for the runs that respect the
policy. `Policy.any` is the code as it stands, and `Policy.quiet` is what is
left of a policy for opening, reading and writing a file by path.

## Theorems

* `resolveMount_ok`, `parentAndNameMount_ok`: What a successful walk found.
* `createNodeAt_spec`: Creating a node succeeds whole or changes nothing.
* `mkdir_creates` and its siblings: What an operation that returned did.
* `openFile_spec`: Opening may create the file, then takes a handle slot.
-/

namespace Norx

namespace Vfs

open Fallible

/-- When the changes the code makes without looking at the other tables are
    allowed. -/
structure Policy where
  removeDirectory : Vfs → Nat → Prop
  destroyNamespace : Vfs → NamespaceId → Prop
  mounting : Prop
  opening : Prop
  remount : Prop

/-- The code as it stands: nothing more is asked of a caller. -/
def Policy.any : Policy :=
  { removeDirectory := fun _ _ => True, destroyNamespace := fun _ _ => True, mounting := True,
    opening := True, remount := True }

/-- No directory goes, and no mount comes or goes. -/
def Policy.quiet (π : Policy) : Policy :=
  { removeDirectory := fun _ _ => False, destroyNamespace := fun _ _ => False, mounting := False,
    opening := π.opening, remount := False }

/-- A walk from the root of the namespace arrives at this inode, in this
    mount. -/
def Resolves (s : Vfs) (ns : NamespaceId) (mount : MountId) (inode : Nat) : Prop :=
  ∃ start components, namespaceRoot s ns = .ok start ∧
    resolveFrom s ns components (start, 0) = .ok (mount, inode)

/-- The child `createNodeAt` links in, in the state after its inode is set
    up. -/
def created (s : Vfs) (parent inode slot : Nat) (name : Name) (kind : NodeType) (mode : UInt16) :
    Vfs :=
  s.setFs ((s.fs.setInode inode (Inode.new kind parent mode)).setChild parent slot
    { used := true, inode, name })

/-- The state with one entry and the inode behind it cleared. -/
def removed (s : Vfs) (parent slot inode : Nat) : Vfs :=
  s.setFs ((s.fs.setChild parent slot Child.empty).setInode inode Inode.empty)

/-- The state with one entry carrying a new name. -/
def renamed (s : Vfs) (parent slot : Nat) (name : Name) : Vfs :=
  s.setFs (s.fs.setChild parent slot { s.fs.child parent slot with name := name })

/-- The file system with an entry moved from one directory to another. -/
def relinked (fs : FileSystem) (oldParent oldSlot newParent newSlot inode : Nat) (name : Name) :
    FileSystem :=
  (fs.setChild oldParent oldSlot Child.empty).setChild newParent newSlot
    { used := true, inode, name }

/-- The state with an inode moved from one directory to another. -/
def moved (s : Vfs) (oldParent oldSlot newParent newSlot inode : Nat) (name : Name) : Vfs :=
  s.setFs ((relinked s.fs oldParent oldSlot newParent newSlot inode name).setInode inode
    { (relinked s.fs oldParent oldSlot newParent newSlot inode name).inode inode with
      parent := newParent })

/-- The state with a handle slot taken. -/
def opened (s : Vfs) (slot : Nat) (mount : MountId) (inode : Nat) : Vfs :=
  s.setFs { s.fs.setHandle slot { used := true, mount, inode } with
    openCount := s.fs.openCount + 1 }

/-- The state with a handle slot given back. -/
def closed (s : Vfs) (slot : Nat) : Vfs :=
  s.setFs { s.fs.setHandle slot HandleSlot.empty with openCount := s.fs.openCount - 1 }

/-- The state with a dentry slot taken and its mount's reference counted. -/
def held (s : Vfs) (slot : Nat) (mount : MountId) (inode : Nat) : Vfs :=
  (s.setDentry slot { used := true, dentry := { mount, inode } }).setMount mount
    { s.mounts.get mount with dentryReferences := (s.mounts.get mount).dentryReferences + 1 }

/-- The state with a dentry slot given back. -/
def released (s : Vfs) (slot : Nat) (mount : MountId) : Vfs :=
  (s.setDentry slot DentrySlot.empty).setMount mount
    { s.mounts.get mount with dentryReferences := (s.mounts.get mount).dentryReferences - 1 }

/-- One change to the tables, with what the code checked before making it. -/
inductive Change (π : Policy) (s : Vfs) : Vfs → Prop
  | create {mount : MountId} {parent inode slot : Nat} {name : Name} {kind : NodeType}
      {mode : UInt16}
      (hparent : Resolves s rootNamespace mount parent)
      (hdir : (s.fs.inode parent).kind = .directory)
      (hname : findChild s.fs parent name = none)
      (hinode : s.fs.inodes.position (fun inode => !inode.used) = some inode)
      (hslot : ((s.fs.setInode inode (Inode.new kind parent mode)).inode parent).children.position
        (fun child => !child.used) = some slot) :
      Change π s (created s parent inode slot name kind mode)
  | remove {mount : MountId} {parent slot : Nat} {name : Name}
      (hparent : Resolves s rootNamespace mount parent)
      (hslot : findChildSlot s.fs parent name = some slot)
      (hkind : ((s.fs.inode (s.fs.child parent slot).inode).kind = .regular
          ∧ hasOpenHandle s.fs (s.fs.child parent slot).inode = false)
        ∨ ((s.fs.inode (s.fs.child parent slot).inode).kind = .directory
          ∧ (s.fs.inode (s.fs.child parent slot).inode).children.any
            (fun entry => entry.used) = false
          ∧ π.removeDirectory s (s.fs.child parent slot).inode)) :
      Change π s (removed s parent slot (s.fs.child parent slot).inode)
  | renameHere {mount : MountId} {parent slot : Nat} {oldName newName : Name}
      (hparent : Resolves s rootNamespace mount parent)
      (hold : findChildSlot s.fs parent oldName = some slot)
      (hnew : findChild s.fs parent newName = none) :
      Change π s (renamed s parent slot newName)
  | move {oldMount newMount : MountId} {oldParent oldSlot newParent newSlot : Nat}
      {oldName newName : Name}
      (hold : Resolves s rootNamespace oldMount oldParent)
      (hnew : Resolves s rootNamespace newMount newParent)
      (hdir : (s.fs.inode newParent).kind = .directory)
      (hne : oldParent ≠ newParent)
      (hslot : findChildSlot s.fs oldParent oldName = some oldSlot)
      (hname : findChild s.fs newParent newName = none)
      (hdesc : (s.fs.inode (s.fs.child oldParent oldSlot).inode).kind = .directory →
        isDescendant s.fs newParent (s.fs.child oldParent oldSlot).inode = false)
      (hfree : (s.fs.inode newParent).children.position (fun child => !child.used)
        = some newSlot) :
      Change π s (moved s oldParent oldSlot newParent newSlot
        (s.fs.child oldParent oldSlot).inode newName)
  | chmod {inode : Nat} {mode : UInt16} :
      Change π s (s.setFs (s.fs.setInode inode { s.fs.inode inode with mode := mode }))
  | write {inode : Nat} {data : Slots fileMax UInt8} {size : Nat}
      (hsize : size ≤ max (s.fs.inode inode).size fileMax) :
      Change π s (s.setFs (s.fs.setInode inode
        { s.fs.inode inode with data := data, size := size }))
  | openHandle {slot : Nat} {mount : MountId} {inode : Nat}
      (hslot : s.fs.handles.position (fun handle => !handle.used) = some slot)
      (hkind : (s.fs.inode inode).kind = .regular)
      (hnode : Resolves s rootNamespace mount inode
        ∨ ((s.fs.inode inode).used = true ∧ (s.mounts.get mount).used = true))
      (hallowed : π.opening) :
      Change π s (opened s slot mount inode)
  | closeHandle {slot : Nat} (hslot : slot < maxOpenHandles)
      (hused : (s.fs.handles.get slot).used = true) (hallowed : π.opening) :
      Change π s (closed s slot)
  | addMount {ns : NamespaceId} {parent : MountId} {mountpoint index : Nat} {source : MountSource}
      {flags : MountFlags} {propagation : Propagation}
      (hresolves : Resolves s ns parent mountpoint) (hne : mountpoint ≠ 0)
      (hdir : (s.fs.inode mountpoint).kind = .directory)
      (hparent : (s.mounts.get parent).used = true)
      (hfresh : findMountChild s ns parent mountpoint = none)
      (hindex : s.mounts.position (fun node => !node.used) = some index)
      (hallowed : π.mounting) :
      Change π s (s.setMount index
        { used := true, ns, parent := some parent, mountpointInode := mountpoint,
          rootInode := mountpoint, source, flags, propagation, dentryReferences := 0 })
  | removeMount {id : MountId}
      (hused : (s.mounts.get id).used = true)
      (hroot : ∃ root, namespaceRoot s (s.mounts.get id).ns = .ok root ∧ root ≠ id)
      (hdentries : (s.mounts.get id).dentryReferences = 0)
      (hhandles : s.fs.handles.any (fun handle => handle.used && handle.mount == id) = false)
      (hchildren : s.mounts.any (fun child => child.used && child.parent == some id) = false)
      (hallowed : π.mounting) :
      Change π s (s.setMount id MountNode.empty)
  | addNamespace {ns : NamespaceId} {mount : MountId}
      (hns : positionFromOne s.namespaces (fun slot => !slot.used) = some ns)
      (hmount : positionFromOne s.mounts (fun node => !node.used) = some mount)
      (hallowed : π.mounting) :
      Change π s ((s.setMount mount (MountNode.root ns)).setNamespace ns
        { used := true, rootMount := mount })
  | removeNamespace {ns : NamespaceId} {root : MountId}
      (hne : ns ≠ rootNamespace) (hroot : namespaceRoot s ns = .ok root)
      (hdentries : s.mounts.any
        (fun node => node.used && node.ns == ns && node.dentryReferences != 0) = false)
      (hhandles : s.fs.handles.any (fun handle => handle.used
        && ((s.mounts.get handle.mount).used && (s.mounts.get handle.mount).ns == ns)) = false)
      (hallowed : π.destroyNamespace s ns) :
      Change π s ((s.setMount root MountNode.empty).setNamespace ns NamespaceSlot.empty)
  | hold {ns : NamespaceId} {slot : Nat} {mount : MountId} {inode : Nat}
      (hresolves : Resolves s ns mount inode)
      (hslot : s.dentries.position (fun entry => !entry.used) = some slot) :
      Change π s (held s slot mount inode)
  | release {slot : Nat} (hslot : slot < maxDentries) (hused : (s.dentries.get slot).used = true) :
      Change π s (released s slot (s.dentries.get slot).dentry.mount)
  | stop : Change π s { s with mounted := false }
  | fresh (hallowed : π.remount) : Change π s freshRamfs

/-- Any number of changes. -/
def Effects (π : Policy) : Vfs → Vfs → Prop := Relation.ReflTransGen (Change π)

variable {π : Policy} {s s' : Vfs}

/-- What is left of a policy is allowed by it. -/
theorem change_of_quiet (h : Change π.quiet s s') : Change π s s' := by
  cases h with
  | create hparent hdir hname hinode hslot => exact .create hparent hdir hname hinode hslot
  | remove hparent hslot hkind =>
    refine .remove hparent hslot (.inl ?_)
    rcases hkind with hreg | ⟨_, _, hallowed⟩
    · exact hreg
    · exact hallowed.elim
  | renameHere hparent hold hnew => exact .renameHere hparent hold hnew
  | move hold hnew hdir hne hslot hname hdesc hfree =>
    exact .move hold hnew hdir hne hslot hname hdesc hfree
  | chmod => exact .chmod
  | write hsize => exact .write hsize
  | openHandle hslot hkind hnode hallowed => exact .openHandle hslot hkind hnode hallowed
  | closeHandle hslot hused hallowed => exact .closeHandle hslot hused hallowed
  | addMount _ _ _ _ _ _ hallowed | removeMount _ _ _ _ _ hallowed | addNamespace _ _ hallowed
  | removeNamespace _ _ _ _ hallowed | fresh hallowed => exact hallowed.elim
  | hold hresolves hslot => exact .hold hresolves hslot
  | release hslot hused => exact .release hslot hused
  | stop => exact .stop

/-- What one request does: nothing, one change, or changes that leave the
    mount table alone. -/
def Once (π : Policy) (s s' : Vfs) : Prop :=
  s' = s ∨ Change π s s' ∨ Effects π.quiet s s'

theorem once_effects (h : Once π s s') : Effects π s s' := by
  rcases h with rfl | hone | hquiet
  · exact .refl
  · exact .single hone
  · exact Relation.ReflTransGen.mono (fun _ _ => change_of_quiet) _ _ hquiet

/-! ### Edits of the inode table -/

/-- What a request may do to the inode table: the inodes it may free and the
    names it may write. -/
structure Scope where
  frees : Nat → Prop
  writes : Name → Prop

/-- One edit of the inode table. -/
inductive Edit (π : Scope) (s : Vfs) : Vfs → Prop
  | keep {s' : Vfs} (hinodes : s'.fs.inodes = s.fs.inodes) : Edit π s s'
  | rewrite {i : Nat} {inode : Inode} (hused : inode.used = (s.fs.inode i).used)
      (hkind : inode.kind = (s.fs.inode i).kind)
      (hchildren : inode.children = (s.fs.inode i).children) :
      Edit π s (s.setFs (s.fs.setInode i inode))
  | create {parent inode slot : Nat} {name : Name} {kind : NodeType} {mode : UInt16}
      (hinode : s.fs.inodes.position (fun inode => !inode.used) = some inode)
      (hname : π.writes name) :
      Edit π s (created s parent inode slot name kind mode)
  | remove {parent slot inode : Nat} (hfrees : π.frees inode) :
      Edit π s (removed s parent slot inode)
  | rename {parent slot : Nat} {name : Name} (hname : π.writes name) :
      Edit π s (renamed s parent slot name)
  | move {oldParent oldSlot newParent newSlot inode : Nat} {name : Name}
      (hname : π.writes name) :
      Edit π s (moved s oldParent oldSlot newParent newSlot inode name)

/-- Any number of edits. -/
def Edits (π : Scope) : Vfs → Vfs → Prop := Relation.ReflTransGen (Edit π)

/-- One change and the edit it makes. -/
def Does (π : Policy) (σ : Scope) (s s' : Vfs) : Prop := Change π s s' ∧ Edit σ s s'

/-- Any number of them. -/
def DoesAll (π : Policy) (σ : Scope) : Vfs → Vfs → Prop := Relation.ReflTransGen (Does π σ)

/-- The program does one thing, or fails and does nothing. -/
def DoesOne {α : Type} (π : Policy) (σ : Scope) (x : VfsM α) (s : Vfs) : Prop :=
  wp x (fun _ => Does π σ s) (fun _ s' => s' = s) s

/-- What one request does: nothing, one thing, or several that leave the mount table
    alone. -/
def Done (π : Policy) (σ : Scope) (s s' : Vfs) : Prop :=
  s' = s ∨ Does π σ s s' ∨ DoesAll π.quiet σ s s'

variable {α : Type}

section Done

variable {σ : Scope}

theorem DoesOne.done {x : VfsM α} (h : DoesOne π σ x s) : Done π σ s (x s).2 :=
  of_wp (P := Done π σ s) (wp_mono h (fun _ _ h => .inr (.inl h)) (fun _ _ h => .inl h))

theorem DoesOne.all {x : VfsM α} (h : DoesOne π σ x s) : DoesAll π σ s (x s).2 := by
  refine of_wp (wp_mono h (fun _ _ h => .single h) (fun _ s' h => ?_))
  rw [h]
  exact .refl

theorem Done.once (h : Done π σ s s') : Once π s s' := by
  rcases h with rfl | hone | hquiet
  · exact .inl rfl
  · exact .inr (.inl hone.1)
  · exact .inr (.inr (Relation.ReflTransGen.mono (fun _ _ h => h.1) _ _ hquiet))

theorem Done.edits (h : Done π σ s s') : Edits σ s s' := by
  rcases h with rfl | hone | hquiet
  · exact .refl
  · exact .single hone.2
  · exact Relation.ReflTransGen.mono (fun _ _ h => h.2) _ _ hquiet

end Done

variable {path : Path} {ns : NamespaceId} {here : MountId × Nat}

/-- What a successful walk found: a parsed path, and a run along it. -/
theorem resolveMount_ok (h : resolveMount s path ns = .ok here) :
    ∃ components start, parsePath path = .ok components ∧ namespaceRoot s ns = .ok start ∧
      resolveFrom s ns components (start, 0) = .ok here := by
  rcases except_bind_ok h with ⟨components, hpath, h⟩
  rcases except_bind_ok h with ⟨start, hroot, hwalk⟩
  exact ⟨components, start, hpath, hroot, hwalk⟩

theorem resolveMount_resolves (h : resolveMount s path ns = .ok here) :
    Resolves s ns here.1 here.2 := by
  rcases resolveMount_ok h with ⟨components, start, _, hroot, hwalk⟩
  exact ⟨start, components, hroot, hwalk⟩

variable {found : MountId × Nat × Name}

/-- What a successful walk to a directory found: the path has a last component,
    and the walk along the others ends at a directory. -/
theorem parentAndNameMount_ok (h : parentAndNameMount s path ns = .ok found) :
    ∃ components start, parsePath path = .ok components ∧
      components.getLast? = some found.2.2 ∧ namespaceRoot s ns = .ok start ∧
      resolveFrom s ns components.dropLast (start, 0) = .ok (found.1, found.2.1) ∧
      (s.fs.inode found.2.1).kind = .directory := by
  rcases except_bind_ok h with ⟨components, hpath, h⟩
  cases hlast : components.getLast? with
  | none =>
    rw [hlast] at h
    exact nomatch h
  | some name =>
    rw [hlast] at h
    rcases except_bind_ok h with ⟨start, hroot, h⟩
    rcases except_bind_ok h with ⟨here, hwalk, h⟩
    by_cases hkind : (s.fs.inode here.2).kind = .directory
    · rw [if_neg (not_not.mpr hkind)] at h
      have hfound : (here.1, here.2, name) = found := Except.ok.inj h
      rw [← hfound]
      exact ⟨components, start, hpath, hlast, hroot, hwalk, hkind⟩
    · rw [if_pos hkind] at h
      exact nomatch h

theorem parentAndNameMount_resolves (h : parentAndNameMount s path ns = .ok found) :
    Resolves s ns found.1 found.2.1 ∧ (s.fs.inode found.2.1).kind = .directory := by
  rcases parentAndNameMount_ok h with ⟨components, start, _, _, hroot, hwalk, hkind⟩
  exact ⟨⟨start, components.dropLast, hroot, hwalk⟩, hkind⟩

/-- The name is a component of the path. -/
def Component (path : Path) (name : Name) : Prop :=
  ∃ components, parsePath path = .ok components ∧ name ∈ components

/-- The name a path's directory is searched for is a component of the path. -/
theorem component_of_parent (h : parentAndNameMount s path ns = .ok found) :
    Component path found.2.2 := by
  rcases parentAndNameMount_ok h with ⟨components, _, hparse, hlast, _⟩
  exact ⟨components, hparse, List.mem_of_getLast? hlast⟩

variable {σ : Scope}

@[simp] theorem wp_withFs (x : VfsM α) (Q : α → Vfs → Prop) (E : Error → Vfs → Prop) (s : Vfs) :
    wp (withFs x) Q E s ↔
      (s.mounted = false → E .notMounted s) ∧ (s.mounted = true → wp x Q E s) := by
  simp [withFs]

variable {fs : FileSystem}

/-- A failed or absent lookup of a name, in the form the code tests it. -/
theorem findChild_eq_none {parent : Nat} {name : Name}
    (h : ¬ (findChild fs parent name).isSome = true) : findChild fs parent name = none := by
  rwa [Bool.not_eq_true, Option.isSome_eq_false_iff, Option.isNone_iff_eq_none] at h

theorem findChild_eq_some {parent i : Nat} {name : Name} (h : findChild fs parent name = some i) :
    ∃ slot, findChildSlot fs parent name = some slot ∧ (fs.child parent slot).inode = i := by
  rw [findChild, Option.map_eq_some_iff] at h
  exact h

/-- A directory with a free entry still has one once an unused inode has been
    set up, whether or not that inode is the directory itself. -/
theorem free_slot_after_setInode {parent inode : Nat} {kind : NodeType} {mode : UInt16}
    (hfree : hasFreeChild fs parent = true) (hinode : inode < maxInodes) :
    ((fs.setInode inode (Inode.new kind parent mode)).inode parent).children.position
      (fun child => !child.used) ≠ none := by
  intro hnone
  rw [Slots.position_eq_none] at hnone
  by_cases hp : parent = inode
  · -- A new inode has no entries at all.
    rw [hp, inode_setInode_self fs _ hinode] at hnone
    have h0 : (!((Slots.replicate maxChildren Child.empty).get 0).used) = false :=
      hnone 0 (by decide)
    exact absurd h0 (by decide)
  · rw [inode_setInode_other fs _ hp] at hnone
    rw [hasFreeChild, Slots.any_eq_true] at hfree
    rcases hfree with ⟨k, hk, hused⟩
    rw [hnone k hk] at hused
    exact absurd hused (by decide)

/-- Creating a node succeeds whole or changes nothing: the free entry is
    checked for before the inode is set up. -/
theorem createNodeAt_spec (parent : Nat) (name : Name) (kind : NodeType) (mode : UInt16) (s : Vfs) :
    wp (createNodeAt parent name kind mode)
      (fun inode s' => ∃ slot, (s.fs.inode parent).kind = .directory ∧
        findChild s.fs parent name = none ∧ hasFreeChild s.fs parent = true ∧
        s.fs.inodes.position (fun inode => !inode.used) = some inode ∧
        ((s.fs.setInode inode (Inode.new kind parent mode)).inode parent).children.position
          (fun child => !child.used) = some slot ∧
        s' = created s parent inode slot name kind mode)
      (fun _ s' => s' = s) s := by
  simp only [createNodeAt, addChild, wp_bind, wp_ite, wp_read, wp_fail, wp_pure, wp_lookup,
    wp_modify, implies_true, and_true, true_and]
  intro hname hdir hfree inode hinode
  have hlt := (Slots.position_eq_some.mp hinode).1
  rw [Bool.not_eq_false] at hfree
  -- Linking the new inode in cannot fail any more.
  refine ⟨fun slot hslot => ?_, fun hnone => ?_⟩
  · exact ⟨slot, not_not.mp hdir, findChild_eq_none hname, hfree, hinode, hslot, rfl⟩
  · exact absurd hnone (free_slot_after_setInode hfree hlt)

/-- What a successful `mkdir` found and did. -/
theorem mkdir_creates (path : Path) (s : Vfs) :
    wp (mkdir path)
      (fun _ s' => ∃ mount parent name inode slot,
        parentAndNameMount s path rootNamespace = .ok (mount, parent, name) ∧
        (s.fs.inode parent).kind = .directory ∧ findChild s.fs parent name = none ∧
        s.fs.inodes.position (fun inode => !inode.used) = some inode ∧
        ((s.fs.setInode inode (Inode.new .directory parent 0o755)).inode parent).children.position
          (fun child => !child.used) = some slot ∧
        s' = created s parent inode slot name .directory 0o755)
      (fun _ s' => s' = s) s := by
  simp only [mkdir, wp_withFs, wp_bind, wp_ite, wp_fail, wp_pure, wp_lift, implies_true,
    and_true, true_and]
  intro _ found hfound flags _ _
  refine wp_post (createNodeAt_spec _ _ _ _ s) (fun inode s' h => ?_)
  rcases h with ⟨slot, hdir, hname, _, hinode, hslot, rfl⟩
  exact ⟨found.1, found.2.1, found.2.2, inode, slot, hfound, hdir, hname, hinode, hslot, rfl⟩

theorem mkdir_does (π : Policy) (s : Vfs) (hwrites : ∀ name, Component path name → σ.writes name) :
    DoesOne π σ (mkdir path) s := by
  refine wp_post (mkdir_creates path s) (fun _ s' h => ?_)
  rcases h with ⟨mount, parent, name, inode, slot, hparent, hdir, hname, hinode, hslot, rfl⟩
  exact ⟨.create (parentAndNameMount_resolves hparent).1 hdir hname hinode hslot,
    .create hinode (hwrites _ (component_of_parent hparent))⟩

/-- What a successful `chmod` did. -/
theorem chmod_rewrites (path : Path) (mode : UInt16) (s : Vfs) :
    wp (chmod path mode)
      (fun _ s' => ∃ inode, s' = s.setFs
        (s.fs.setInode inode { s.fs.inode inode with mode := mode &&& 0o777 }))
      (fun _ s' => s' = s) s := by
  simp only [chmod, wp_withFs, wp_bind, wp_ite, wp_fail, wp_lift, wp_modify, implies_true,
    and_true, true_and]
  intro _ here _ flags _ _
  exact ⟨here.2, rfl⟩

theorem chmod_does (π : Policy) (σ : Scope) (path : Path) (mode : UInt16) (s : Vfs) :
    DoesOne π σ (chmod path mode) s := by
  refine wp_post (chmod_rewrites path mode s) (fun _ s' h => ?_)
  rcases h with ⟨inode, rfl⟩
  exact ⟨.chmod, .rewrite rfl rfl rfl⟩

/-- The path names an entry, which leads to this inode. -/
def Names (s : Vfs) (path : Path) (child : Nat) : Prop :=
  ∃ mount parent name, parentAndNameMount s path rootNamespace = .ok (mount, parent, name) ∧
    findChild s.fs parent name = some child

/-- The entry a path names was taken out, and the inode behind it freed. -/
def Removes (s : Vfs) (path : Path) (child : Nat) (s' : Vfs) : Prop :=
  ∃ mount parent name slot,
    parentAndNameMount s path rootNamespace = .ok (mount, parent, name) ∧
    findChild s.fs parent name = some child ∧ findChildSlot s.fs parent name = some slot ∧
    s' = removed s parent slot child

theorem removes_names {child : Nat} (h : Removes s path child s') : Names s path child := by
  rcases h with ⟨mount, parent, name, slot, hparent, hchild, -, -⟩
  exact ⟨mount, parent, name, hparent, hchild⟩

/-- A removal of a file nobody has open or of an empty directory. -/
theorem removes_does {child : Nat} (h : Removes s path child s')
    (hfrees : ∀ i, Names s path i → σ.frees i) (hkind : ((s.fs.inode child).kind = .regular ∧ hasOpenHandle s.fs child = false) ∨ ((s.fs.inode
      child).kind = .directory ∧ (s.fs.inode child).children.any (fun entry => entry.used) = false ∧
      π.removeDirectory s child)) : Does π σ s s' := by
  have hfreed := hfrees child (removes_names h)
  rcases h with ⟨mount, parent, name, slot, hparent, hchild, hslot, rfl⟩
  -- The entry removed is the one the name was looked up in.
  rcases findChild_eq_some hchild with ⟨slot', hslot', rfl⟩
  have hsame : slot = slot' := Option.some.inj (hslot.symm.trans hslot')
  subst hsame
  exact ⟨.remove (parentAndNameMount_resolves hparent).1 hslot hkind, .remove hfreed⟩

theorem unlink_removes (path : Path) (s : Vfs) :
    wp (unlink path)
      (fun _ s' => ∃ child, Removes s path child s' ∧ (s.fs.inode child).kind = .regular ∧
        hasOpenHandle s.fs child = false)
      (fun _ s' => s' = s) s := by
  simp only [unlink, removeChild, wp_withFs, wp_bind, wp_ite, wp_read, wp_fail, wp_pure, wp_lift,
    wp_lookup, wp_modify, implies_true, and_true, true_and]
  intro _ found hfound flags _ _ child hchild hkind hopen slot hslot
  refine ⟨child, ⟨found.1, found.2.1, found.2.2, slot, hfound, hchild, hslot, rfl⟩, ?_, ?_⟩
  · cases hk : (s.fs.inode child).kind with
    | directory => exact absurd hk hkind
    | regular => rfl
  · rwa [Bool.not_eq_true] at hopen

theorem unlink_does (π : Policy) (s : Vfs) (hfrees : ∀ i, Names s path i → σ.frees i) :
    DoesOne π σ (unlink path) s := by
  refine wp_post (unlink_removes path s) (fun _ s' h => ?_)
  rcases h with ⟨child, hremoves, hkind, hopen⟩
  exact removes_does hremoves hfrees (.inl ⟨hkind, hopen⟩)

theorem removeDir_removes (path : Path) (s : Vfs) :
    wp (removeDir path)
      (fun _ s' => ∃ child, Removes s path child s' ∧ (s.fs.inode child).kind = .directory ∧
        (s.fs.inode child).children.any (fun entry => entry.used) = false)
      (fun _ s' => s' = s) s := by
  simp only [removeDir, removeChild, wp_withFs, wp_bind, wp_ite, wp_read, wp_fail, wp_pure, wp_lift,
    wp_lookup, wp_modify, implies_true, and_true, true_and]
  intro _ found hfound flags _ _ child hchild hkind hempty slot hslot
  refine ⟨child, ⟨found.1, found.2.1, found.2.2, slot, hfound, hchild, hslot, rfl⟩, ?_, ?_⟩
  · exact not_not.mp hkind
  · rwa [Bool.not_eq_true] at hempty

theorem removeDir_does (s : Vfs) (hfrees : ∀ i, Names s path i → σ.frees i)
    (hallowed : ∀ mount parent name child,
      parentAndNameMount s path rootNamespace = .ok (mount, parent, name) →
      findChild s.fs parent name = some child → π.removeDirectory s child) :
    DoesOne π σ (removeDir path) s := by
  refine wp_post (removeDir_removes path s) (fun _ s' h => ?_)
  rcases h with ⟨child, hremoves, hkind, hempty⟩
  -- As for a file, and the policy has to allow it.
  rcases removes_names hremoves with ⟨mount, parent, name, hparent, hchild⟩
  exact removes_does hremoves hfrees
    (.inr ⟨hkind, hempty, hallowed mount parent name child hparent hchild⟩)

/-- An entry was given a new name where it was, or moved to another
    directory. -/
def Relinks (s : Vfs) (oldPath newPath : Path) (s' : Vfs) : Prop :=
  ∃ old new slot, parentAndNameMount s oldPath rootNamespace = .ok old ∧
    parentAndNameMount s newPath rootNamespace = .ok new ∧
    findChildSlot s.fs old.2.1 old.2.2 = some slot ∧ findChild s.fs new.2.1 new.2.2 = none ∧
    ((old.2.1 = new.2.1 ∧ s' = renamed s old.2.1 slot new.2.2) ∨
      (old.2.1 ≠ new.2.1 ∧
        ((s.fs.inode (s.fs.child old.2.1 slot).inode).kind = .directory →
          isDescendant s.fs new.2.1 (s.fs.child old.2.1 slot).inode = false) ∧
        ∃ newSlot, (s.fs.inode new.2.1).children.position (fun child => !child.used) = some newSlot ∧
          s' = moved s old.2.1 slot new.2.1 newSlot (s.fs.child old.2.1 slot).inode new.2.2))

/-- Renaming moves one entry or changes nothing. The entry is taken out of the
    old directory before it is put into the new one, but a free slot there has
    been checked for and the two directories differ, so putting it in cannot
    fail and the recovery branch is dead. -/
theorem rename_relinks (oldPath newPath : Path) (s : Vfs) :
    wp (rename oldPath newPath) (fun _ s' => Relinks s oldPath newPath s')
      (fun _ s' => s' = s) s := by
  simp only [rename, removeChild, wp_withFs, wp_bind, wp_ite, wp_read, wp_fail, wp_pure, wp_lift,
    wp_lookup, wp_modify, wp_attempt, implies_true, and_true, true_and]
  intro _ old hold inode hinode new hnew _ flags _ _ hname hdesc
  rcases findChild_eq_some hinode with ⟨slot', hslot', hinode'⟩
  have hname' := findChild_eq_none hname
  refine ⟨fun hsame slot hslot => ?_, fun hne hfree slot hslot => ?_⟩
  · exact ⟨old, new, slot, hold, hnew, hslot, hname', .inl ⟨hsame, rfl⟩⟩
  · have hss : slot = slot' := Option.some.inj (hslot.symm.trans hslot')
    subst hss
    subst hinode'
    -- The new directory is not the one the entry was just taken out of.
    have hkeep : (s.fs.setChild old.2.1 slot Child.empty).inode new.2.1 = s.fs.inode new.2.1 :=
      inode_setInode_other s.fs _ (fun hc => hne hc.symm)
    simp [addChild, setFs, hkeep]
    refine ⟨fun newSlot hnewSlot => ?_, fun hnone => ?_⟩
    · refine ⟨old, new, slot, hold, hnew, hslot, hname', .inr ⟨hne, fun hkind => ?_, newSlot,
        hnewSlot, rfl⟩⟩
      by_contra hc
      rw [Bool.not_eq_false] at hc
      exact hdesc ⟨hkind, hc⟩
    · rw [Bool.not_eq_false, hasFreeChild, Slots.any_eq_true] at hfree
      rcases hfree with ⟨k, hk, hused⟩
      rw [Slots.position_eq_none.mp hnone k hk] at hused
      exact absurd hused (by decide)

theorem rename_does (π : Policy) (oldPath : Path) {newPath : Path} (s : Vfs)
    (hwrites : ∀ name, Component newPath name → σ.writes name) :
    DoesOne π σ (rename oldPath newPath) s := by
  refine wp_post (rename_relinks oldPath newPath s) (fun _ s' h => ?_)
  rcases h with ⟨old, new, slot, hold, hnew, hslot, hname, ⟨hsame, rfl⟩ |
    ⟨hne, hdesc, newSlot, hfree, rfl⟩⟩
  · rw [← hsame] at hname
    exact ⟨.renameHere (parentAndNameMount_resolves hold).1 hslot hname,
      .rename (hwrites _ (component_of_parent hnew))⟩
  · exact ⟨.move (parentAndNameMount_resolves hold).1 (parentAndNameMount_resolves hnew).1
      (parentAndNameMount_resolves hnew).2 hne hslot hname hdesc hfree,
      .move (hwrites _ (component_of_parent hnew))⟩

/-- What a mount call that returned has checked, and the node it wrote. -/
theorem mountInNamespace_spec (ns : NamespaceId) (source : MountSource) (target : Path)
    (flags : MountFlags) (propagation : Propagation) (s : Vfs) :
    wp (mountInNamespace ns source target flags propagation)
      (fun index s' => ∃ parent mountpoint, resolveMount s target ns = .ok (parent, mountpoint) ∧
        mountpoint ≠ 0 ∧ (s.fs.inode mountpoint).kind = .directory ∧
        (s.mounts.get parent).used = true ∧ findMountChild s ns parent mountpoint = none ∧
        s.mounts.position (fun node => !node.used) = some index ∧
        s' = s.setMount index
          { used := true, ns, parent := some parent, mountpointInode := mountpoint,
            rootInode := mountpoint, source, flags, propagation, dentryReferences := 0 })
      (fun _ s' => s' = s) s := by
  simp only [mountInNamespace, wp_withFs, wp_bind, wp_ite, wp_read, wp_fail, wp_pure, wp_lift,
    wp_lookup, wp_modify, implies_true, and_true, true_and]
  intro _ _ here hhere hdir node hnode _ hfresh index hindex
  rw [not_or, not_not] at hdir
  rw [Bool.not_eq_true, Option.isSome_eq_false_iff, Option.isNone_iff_eq_none] at hfresh
  exact ⟨here.1, here.2, hhere, hdir.1, hdir.2, (mountNode_ok hnode).1, hfresh, hindex, rfl⟩

theorem mountInNamespace_does (σ : Scope) (ns : NamespaceId) (source : MountSource)
    (target : Path) (flags : MountFlags) (propagation : Propagation) (s : Vfs)
    (hallowed : π.mounting) :
    DoesOne π σ (mountInNamespace ns source target flags propagation) s := by
  refine wp_post (mountInNamespace_spec ns source target flags propagation s)
    (fun index s' h => ?_)
  rcases h with ⟨parent, mountpoint, hresolve, hne, hdir, hparent, hfresh, hindex, rfl⟩
  exact ⟨.addMount (resolveMount_resolves hresolve) hne hdir hparent hfresh hindex hallowed,
    .keep rfl⟩

theorem unmountMount_does (σ : Scope) (id : MountId) (s : Vfs) (hallowed : π.mounting) :
    DoesOne π σ (unmountMount id) s := by
  simp only [DoesOne, unmountMount, wp_withFs, wp_bind, wp_ite, wp_read, wp_fail, wp_lift, wp_modify,
    implies_true, and_true, true_and]
  intro _ node hnode root hroot hne hbusy
  rcases mountNode_ok hnode with ⟨hused, rfl⟩
  rw [not_or, not_or, not_not, Bool.not_eq_true, Bool.not_eq_true] at hbusy
  exact ⟨.removeMount hused ⟨root, hroot, hne⟩ hbusy.1 hbusy.2.1 hbusy.2.2 hallowed, .keep rfl⟩

/-- What a namespace call that returned has found, and the slots it wrote. -/
theorem createNamespace_spec (s : Vfs) :
    wp createNamespace
      (fun ns s' => ∃ mount, positionFromOne s.namespaces (fun slot => !slot.used) = some ns ∧
        positionFromOne s.mounts (fun node => !node.used) = some mount ∧
        s' = (s.setMount mount (MountNode.root ns)).setNamespace ns
          { used := true, rootMount := mount })
      (fun _ s' => s' = s) s := by
  simp only [createNamespace, wp_bind, wp_ite, wp_read, wp_fail, wp_pure, wp_lookup, wp_modify,
    implies_true, and_true, true_and]
  intro _ ns hns mount hmount
  exact ⟨mount, hns, hmount, rfl⟩

theorem createNamespace_does (σ : Scope) (s : Vfs) (hallowed : π.mounting) :
    DoesOne π σ createNamespace s := by
  refine wp_post (createNamespace_spec s) (fun ns s' h => ?_)
  rcases h with ⟨mount, hns, hmount, rfl⟩
  exact ⟨.addNamespace hns hmount hallowed, .keep rfl⟩

theorem destroyNamespace_does (σ : Scope) (ns : NamespaceId) (s : Vfs)
    (hallowed : π.destroyNamespace s ns) : DoesOne π σ (destroyNamespace ns) s := by
  simp only [DoesOne, destroyNamespace, wp_withFs, wp_bind, wp_ite, wp_read, wp_fail, wp_lift, wp_modify,
    implies_true, and_true, true_and]
  intro hne _ root hroot hbusy
  rw [not_or, Bool.not_eq_true, Bool.not_eq_true] at hbusy
  exact ⟨.removeNamespace hne hroot hbusy.1 hbusy.2 hallowed, .keep rfl⟩

/-- What a dentry lookup that returned has found, and the slot it took. -/
theorem lookupInNamespace_spec (ns : NamespaceId) (path : Path) (s : Vfs) :
    wp (lookupInNamespace ns path)
      (fun handle s' => resolveMount s path ns = .ok (handle.dentry.mount, handle.dentry.inode) ∧
        s.dentries.position (fun entry => !entry.used) = some handle.slot ∧
        s' = held s handle.slot handle.dentry.mount handle.dentry.inode)
      (fun _ s' => s' = s) s := by
  simp only [lookupInNamespace, wp_withFs, wp_bind, wp_pure, wp_lift, wp_lookup, wp_modify,
    implies_true, and_true, true_and]
  intro _ here hhere slot hslot
  exact ⟨hhere, hslot, rfl⟩

theorem lookupInNamespace_does (π : Policy) (σ : Scope) (ns : NamespaceId) (path : Path)
    (s : Vfs) : DoesOne π σ (lookupInNamespace ns path) s := by
  refine wp_post (lookupInNamespace_spec ns path s) (fun handle s' h => ?_)
  rcases h with ⟨hresolve, hslot, rfl⟩
  exact ⟨.hold (resolveMount_resolves hresolve) hslot, .keep rfl⟩

theorem releaseDentry_does (π : Policy) (σ : Scope) (handle : DentryHandle) (s : Vfs) :
    DoesOne π σ (releaseDentry handle) s := by
  simp only [DoesOne, releaseDentry, wp_withFs, wp_bind, wp_ite, wp_read, wp_fail, wp_modify, implies_true,
    true_and]
  intro _ hvalid
  rw [not_or, not_or, Nat.not_le, Bool.not_eq_false, not_not] at hvalid
  rw [← hvalid.2.2]
  exact ⟨.release hvalid.1 hvalid.2.1, .keep rfl⟩

theorem validateHandle_ok {handle : FileHandle} {slot : Nat}
    (h : validateHandle s handle = .ok slot) :
    slot = handle.slot ∧ handle.slot < maxOpenHandles ∧
      s.fs.handles.get handle.slot
        = { used := true, mount := handle.mount, inode := handle.inode } ∧
      (s.fs.inode handle.inode).used = true ∧ (s.mounts.get handle.mount).used = true := by
  rw [validateHandle] at h
  split at h
  · exact nomatch h
  · rename_i hvalid
    simp at hvalid
    rcases hvalid with ⟨hslot, hused, hmount, hinode, hnode, hmounted⟩
    refine ⟨(Except.ok.inj h).symm, hslot, ?_, hnode, ?_⟩
    · cases hget : s.fs.handles.get handle.slot with
      | mk used mount inode =>
        rw [hget] at hused hmount hinode
        simp only at hused hmount hinode
        rw [hused, hmount, hinode]
    · by_contra hc
      rw [mountNode, if_neg hc] at hmounted
      exact absurd hmounted (by decide)

theorem close_spec (handle : FileHandle) (s : Vfs) :
    wp (close handle)
      (fun _ s' => validateHandle s handle = .ok handle.slot ∧ s' = closed s handle.slot)
      (fun e s' => s' = s ∧ (s.mounted = false ∨ validateHandle s handle = .error e)) s := by
  simp [close, wp_lift]
  refine ⟨fun hm => .inl hm, fun _ => ⟨fun slot hslot => ?_, fun e he => .inr he⟩⟩
  have hsame := (validateHandle_ok hslot).1
  subst hsame
  exact ⟨hslot, rfl⟩

theorem close_does (σ : Scope) (handle : FileHandle) (s : Vfs) (hallowed : π.opening) :
    DoesOne π σ (close handle) s := by
  refine wp_mono (close_spec handle s) (fun _ s' h => ?_) (fun _ _ h => h.1)
  rcases h with ⟨hvalid, rfl⟩
  have hslot := validateHandle_ok hvalid
  exact ⟨.closeHandle hslot.2.1 (by rw [hslot.2.2.1]) hallowed, .keep rfl⟩

/-- `open` creates the file: the path names nothing, `create` is set, the
    directory is writable and has room. `here` is the mount and the new
    inode. -/
def Creates (s : Vfs) (path : Path) (options : OpenOptions) (here : MountId × Nat) (s' : Vfs) :
    Prop :=
  ∃ parent name slot flags, resolveMount s path rootNamespace = .error .notFound ∧
    options.create = true ∧
    parentAndNameMount s path rootNamespace = .ok (here.1, parent, name) ∧
    mountFlags s here.1 = .ok flags ∧ flags.readOnly = false ∧
    (s.fs.inode parent).kind = .directory ∧ findChild s.fs parent name = none ∧
    hasFreeChild s.fs parent = true ∧
    s.fs.inodes.position (fun inode => !inode.used) = some here.2 ∧
    ((s.fs.setInode here.2 (Inode.new .regular parent 0o644)).inode parent).children.position
      (fun child => !child.used) = some slot ∧
    s' = created s parent here.2 slot name .regular 0o644

variable {options : OpenOptions}

theorem creates_does (π : Policy) (h : Creates s path options here s')
    (hwrites : ∀ name, Component path name → σ.writes name) : Does π σ s s' := by
  rcases h with ⟨parent, name, slot, flags, _, _, hparent, _, _, hdir, hname, _, hinode, hslot, rfl⟩
  exact ⟨.create (parentAndNameMount_resolves hparent).1 hdir hname hinode hslot,
    .create hinode (hwrites _ (component_of_parent hparent))⟩

/-- The inode just created, whatever directory it was linked into. -/
theorem created_inode (s : Vfs) (parent slot : Nat) {inode : Nat} (name : Name) (kind : NodeType)
    (mode : UInt16) (h : inode < maxInodes) :
    ((created s parent inode slot name kind mode).fs.inode inode).used = true ∧
      ((created s parent inode slot name kind mode).fs.inode inode).kind = kind ∧
      ((created s parent inode slot name kind mode).fs.inode inode).mode = mode := by
  rcases setChild_keeps (s.fs.setInode inode (Inode.new kind parent mode)) parent slot
    { used := true, inode, name } inode with ⟨children, hkeep⟩
  rw [inode_setInode_self s.fs _ h] at hkeep
  have hnew : (created s parent inode slot name kind mode).fs.inode inode
      = { Inode.new kind parent mode with children := children } := hkeep
  rw [hnew]
  exact ⟨rfl, rfl, rfl⟩

theorem openTarget_spec (path : Path) (options : OpenOptions) (s : Vfs) :
    wp (openTarget path options)
      (fun here s' => (s' = s ∧ resolveMount s path rootNamespace = .ok here)
        ∨ Creates s path options here s')
      (fun _ s' => s' = s) s := by
  simp [openTarget]
  cases hresolve : resolveMount s path rootNamespace with
  | ok here =>
    exact .inl ⟨rfl, rfl⟩
  | error e =>
    simp only [wp_bind, wp_ite, wp_fail, wp_pure, wp_lift, implies_true, and_true, true_and]
    rintro ⟨he, hcreate⟩ found hfound flags hflags hwritable
    subst he
    refine wp_post (createNodeAt_spec _ _ _ _ s) (fun inode s' h => ?_)
    rcases h with ⟨slot, hdir, hname, hroom, hinode, hslot, hs'⟩
    exact .inr ⟨found.2.1, found.2.2, slot, flags, hresolve, hcreate, hfound, hflags,
      Bool.not_eq_true _ ▸ hwritable, hdir, hname, hroom, hinode, hslot, hs'⟩

/-- The handle `open` returns for a node. -/
def newHandle (here : MountId × Nat) (slot : Nat) (options : OpenOptions) : FileHandle :=
  { inode := here.2, mount := here.1, slot, offset := 0, readable := options.read,
    writable := options.write }

theorem openNode_spec (options : OpenOptions) (here : MountId × Nat) (s : Vfs) :
    wp (openNode options here)
      (fun handle s' => ∃ slot, (s.fs.inode here.2).kind = .regular ∧
        s.fs.handles.position (fun handle => !handle.used) = some slot ∧
        handle = newHandle here slot options ∧ s' = opened s slot here.1 here.2)
      (fun _ s' => s' = s ∧ ((s.fs.inode here.2).kind = .directory
        ∨ (s.fs.inode here.2).mode &&& 0o444 = 0 ∨ (s.fs.inode here.2).mode &&& 0o222 = 0
        ∨ s.fs.handles.position (fun handle => !handle.used) = none)) s := by
  simp only [openNode, wp_bind, wp_ite, wp_read, wp_fail, wp_pure, wp_lookup, wp_modify, true_and]
  refine ⟨fun h => .inl h, fun hkind => ⟨fun h => .inr (.inl h.2), fun _ =>
    ⟨fun h => .inr (.inr (.inl h.2)), fun _ => ⟨fun slot hslot => ?_, fun h =>
      .inr (.inr (.inr h))⟩⟩⟩⟩
  refine ⟨slot, ?_, hslot, rfl, rfl⟩
  cases hk : (s.fs.inode here.2).kind with
  | directory => exact absurd hk hkind
  | regular => rfl

/-- A file just created is regular, has the default mode, and sits in a
    writable mount; the handle table is as it was. -/
theorem creates_node {s₁ : Vfs} (h : Creates s path options here s₁) :
    (s₁.fs.inode here.2).used = true ∧ (s₁.fs.inode here.2).kind = .regular ∧
      (s₁.fs.inode here.2).mode = 0o644 ∧ s₁.fs.handles = s.fs.handles ∧
      ∃ flags, mountFlags s₁ here.1 = .ok flags ∧ flags.readOnly = false := by
  rcases h with ⟨parent, name, slot, flags, _, _, _, hflags, hwritable, _, _, _, hinode, _, rfl⟩
  have hlt := (Slots.position_eq_some.mp hinode).1
  have hnew := created_inode s parent slot name .regular 0o644 hlt
  exact ⟨hnew.1, hnew.2.1, hnew.2.2, rfl, flags, hflags, hwritable⟩

/-- Opening succeeded: the file was found or created, giving `s₁`, and a
    handle slot was then taken for it. -/
def Opens (s : Vfs) (path : Path) (options : OpenOptions) (handle : FileHandle) (s' : Vfs) : Prop :=
  ∃ here slot s₁,
    ((s₁ = s ∧ resolveMount s path rootNamespace = .ok here) ∨ Creates s path options here s₁) ∧
    (options.write = true ∨ options.create = true →
      ∃ flags, mountFlags s₁ here.1 = .ok flags ∧ flags.readOnly = false) ∧
    (s₁.fs.inode here.2).kind = .regular ∧
    s₁.fs.handles.position (fun handle => !handle.used) = some slot ∧
    handle = newHandle here slot options ∧ s' = opened s₁ slot here.1 here.2

/-- Opening created the file and then found every handle slot in use. -/
def Strands (s : Vfs) (path : Path) (options : OpenOptions) (s' : Vfs) : Prop :=
  ∃ here, Creates s path options here s' ∧
    s.fs.handles.position (fun handle => !handle.used) = none

/-- Opening finds the file or creates it, then takes a handle slot. A failure
    changes nothing, except when the file was created and no handle slot was
    left for it: that file stays behind. -/
theorem openFile_spec (path : Path) (options : OpenOptions) (s : Vfs) :
    wp (openFile path options) (Opens s path options)
      (fun _ s' => s' = s ∨ Strands s path options s') s := by
  rw [openFile, wp_withFs]
  refine ⟨fun _ => .inl rfl, fun _ => ?_⟩
  rw [wp_bind]
  refine wp_mono (openTarget_spec path options s) (fun here s₁ htarget => ?_)
    (fun _ _ h => .inl h)
  -- The tests before the handle search fail only when nothing was created.
  have hunchanged : (Creates s path options here s₁ → False) → s₁ = s := by
    intro h
    rcases htarget with ⟨hs, _⟩ | hcreates
    · exact hs
    · exact absurd hcreates h
  have htail : (options.write = true ∨ options.create = true →
      ∃ flags, mountFlags s₁ here.1 = .ok flags ∧ flags.readOnly = false) →
      wp (openNode options here) (Opens s path options)
        (fun _ s' => s' = s ∨ Strands s path options s') s₁ := by
    intro hflags
    refine wp_mono (openNode_spec options here s₁) (fun handle s' h => ?_) (fun e s' h => ?_)
    · rcases h with ⟨slot, hkind, hslot, hhandle, hs'⟩
      exact ⟨here, slot, s₁, htarget, hflags, hkind, hslot, hhandle, hs'⟩
    · rcases h with ⟨hs', hwhy⟩
      rw [hs']
      rcases htarget with ⟨hs, _⟩ | hcreates
      · exact .inl hs
      · rcases creates_node hcreates with ⟨_, hkind, hmode, hhandles, _⟩
        -- A new file is regular and its mode allows both, so only the slot can be missing.
        rw [hkind, hmode, hhandles] at hwhy
        rcases hwhy with hc | hc | hc | hnone
        · exact absurd hc (by decide)
        · exact absurd hc (by decide)
        · exact absurd hc (by decide)
        · exact .inr ⟨here, hcreates, hnone⟩
  simp only [wp_bind, wp_ite, wp_fail, wp_lift]
  refine ⟨fun hwrite => ⟨fun flags hflags => ⟨fun hro => ?_, fun hrw => ?_⟩, fun e he => ?_⟩,
    fun hwrite => htail (fun h => absurd h hwrite)⟩
  · -- A file just created is in a writable mount.
    refine .inl (hunchanged (fun hcreates => ?_))
    rcases creates_node hcreates with ⟨_, _, _, _, flags', hflags', hrw⟩
    rw [hflags] at hflags'
    rw [← Except.ok.inj hflags', hro] at hrw
    exact absurd hrw (by decide)
  · rw [Bool.not_eq_true] at hrw
    exact htail (fun _ => ⟨flags, hflags, hrw⟩)
  · refine .inl (hunchanged (fun hcreates => ?_))
    rcases creates_node hcreates with ⟨_, _, _, _, flags', hflags', _⟩
    rw [he] at hflags'
    cases hflags'

/-- Opening as a sequence of changes, successful or not. -/
theorem openFile_does (options : OpenOptions) (s : Vfs) (hallowed : π.opening)
    (hwrites : ∀ name, Component path name → σ.writes name) :
    DoesAll π.quiet σ s (openFile path options s).2 := by
  refine of_wp (wp_mono (openFile_spec path options s) (fun handle s' h => ?_)
    (fun _ s' h => ?_))
  · rcases h with ⟨here, slot, s₁, htarget, hflags, hkind, hslot, _, rfl⟩
    rcases htarget with ⟨rfl, hresolve⟩ | hcreates
    · exact .single
        ⟨.openHandle hslot hkind (.inl (resolveMount_resolves hresolve)) hallowed, .keep rfl⟩
    · refine .head (creates_does _ hcreates hwrites)
        (.single ⟨.openHandle hslot hkind (.inr ?_) hallowed, .keep rfl⟩)
      rcases creates_node hcreates with ⟨hused, _, _, _, flags, hflags, _⟩
      refine ⟨hused, ?_⟩
      rcases except_bind_ok hflags with ⟨node, hnode, _⟩
      exact (mountNode_ok hnode).1
  · rcases h with rfl | ⟨here, hcreates, _⟩
    · exact .refl
    · exact .single (creates_does _ hcreates hwrites)

/-- The state and handle a read leaves: the offset moves past what was
    copied. -/
def afterRead (b : Borrowed) (length : Nat) : Borrowed :=
  { b with handle := { b.handle with
      offset := b.handle.offset + (readSpan b.vfs b.handle length).2 } }

theorem readHandle_spec (length : Nat) (b : Borrowed) :
    wp (readHandle length)
      (fun output b' => validateHandle b.vfs b.handle = .ok b.handle.slot ∧
        output = copyOut (b.vfs.fs.inode b.handle.inode).data (readSpan b.vfs b.handle length) ∧
        b' = afterRead b length)
      (fun _ b' => b' = b) b := by
  simp [readHandle, wp_lift]
  intro _ slot hslot _
  have hsame := (validateHandle_ok hslot).1
  subst hsame
  exact ⟨hslot, rfl⟩

/-- The state and handle a write leaves: the bytes copied in, the size grown
    to cover them, the offset past them. -/
def afterWrite (b : Borrowed) (input : List UInt8) : Borrowed :=
  { vfs := b.vfs.setFs (b.vfs.fs.setInode b.handle.inode
      { b.vfs.fs.inode b.handle.inode with
        data := copyIn (b.vfs.fs.inode b.handle.inode).data b.handle.offset input,
        size := max (b.vfs.fs.inode b.handle.inode).size (b.handle.offset + input.length) }),
    handle := { b.handle with offset := b.handle.offset + input.length } }

theorem writeHandle_spec (input : List UInt8) (b : Borrowed) :
    wp (writeHandle input)
      (fun _ b' => validateHandle b.vfs b.handle = .ok b.handle.slot ∧
        (∃ flags, mountFlags b.vfs b.handle.mount = .ok flags ∧ flags.readOnly = false) ∧
        b.handle.offset + input.length ≤ fileMax ∧ b' = afterWrite b input)
      (fun _ b' => b' = b) b := by
  simp only [writeHandle, writeSpan, wp_bind, wp_ite, wp_read, wp_fail, wp_pure, wp_lift, wp_modify,
    implies_true, and_true, true_and]
  intro _ slot hslot flags hflags hrw _ hend
  have hsame := (validateHandle_ok hslot).1
  subst hsame
  exact ⟨hslot, ⟨flags, hflags, Bool.not_eq_true _ ▸ hrw⟩, Nat.not_lt.mp hend, rfl⟩

theorem seek_spec (offset : Int) (b : Borrowed) :
    wp (seek offset)
      (fun next b' => next ≤ fileMax ∧ b' = { b with handle := { b.handle with offset := next } })
      (fun _ b' => b' = b) b := by
  simp only [seek, wp_bind, wp_ite, wp_read, wp_fail, wp_pure, wp_lift, wp_modify, implies_true,
    and_true, true_and]
  intro _ slot _ _ hnext
  exact Nat.not_lt.mp hnext

theorem readHandle_vfs (length : Nat) (b : Borrowed) : (readHandle length b).2.vfs = b.vfs := by
  refine of_wp (P := fun b' => b'.vfs = b.vfs) (wp_mono (readHandle_spec length b)
    (fun _ b' h => ?_) (fun _ b' h => by rw [h]))
  rw [h.2.2, afterRead]

theorem seek_vfs (offset : Int) (b : Borrowed) : (seek offset b).2.vfs = b.vfs :=
  of_wp (P := fun b' => b'.vfs = b.vfs) (wp_mono (seek_spec offset b)
    (fun _ b' h => by rw [h.2]) (fun _ b' h => by rw [h]))

theorem writeHandle_does (π : Policy) (σ : Scope) (input : List UInt8) (b : Borrowed) :
    DoesAll π σ b.vfs (writeHandle input b).2.vfs := by
  refine of_wp (P := fun b' => DoesAll π σ b.vfs b'.vfs) (wp_mono (writeHandle_spec input b)
    (fun _ b' h => ?_) (fun _ b' h => by rw [h]; exact .refl))
  rcases h with ⟨_, _, hend, rfl⟩
  -- The size grows to the end of the write at most, which is within the limit.
  refine .single ⟨.write ?_, .rewrite rfl rfl rfl⟩
  omega

theorem readPath_does (s : Vfs) (hallowed : π.opening)
    (hwrites : ∀ name, Component path name → σ.writes name) :
    DoesAll π.quiet σ s (readPath path s).2 := by
  have hopen := openFile_does OpenOptions.readOnly s hallowed hwrites
  rw [readPath]
  rcases hx : openFile path OpenOptions.readOnly s with ⟨_ | handle, s₁⟩
  · rw [hx] at hopen
    exact hopen
  · rw [hx] at hopen
    refine hopen.trans ?_
    -- The read in between changes nothing but the handle.
    have hclose := (close_does (π := π.quiet) σ (readHandle 255 ⟨s₁, handle⟩).2.handle
      (readHandle 255 ⟨s₁, handle⟩).2.vfs hallowed).all
    rw [readHandle_vfs] at hclose
    simp only [readHandle_vfs]
    exact hclose

theorem writePath_does (input : List UInt8) (s : Vfs) (hallowed : π.opening)
    (hwrites : ∀ name, Component path name → σ.writes name) :
    DoesAll π.quiet σ s (writePath path input s).2 := by
  have hopen := openFile_does OpenOptions.writeCreate s hallowed hwrites
  rw [writePath]
  rcases hx : openFile path OpenOptions.writeCreate s with ⟨_ | handle, s₁⟩
  · rw [hx] at hopen
    exact hopen
  · rw [hx] at hopen
    exact (hopen.trans (writeHandle_does _ σ input ⟨s₁, handle⟩)).trans
      (close_does (π := π.quiet) σ _ _ hallowed).all

theorem mountRamfs_spec (s : Vfs) :
    wp mountRamfs (fun _ s' => s' = freshRamfs) (fun _ s' => s' = s) s := by
  simp [mountRamfs]

theorem unmountRamfs_does (π : Policy) (σ : Scope) (s : Vfs) : DoesOne π σ unmountRamfs s := by
  simp [DoesOne, unmountRamfs]
  intro _ _
  exact ⟨.stop, .keep rfl⟩

end Vfs

end Norx
