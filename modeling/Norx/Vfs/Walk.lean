import Norx.Vfs.World

/-!
# Walking the Tree

Where a path leads, split into its two independent halves: the inode it names,
which depends on the directory tree alone, and the mount it ends up in, which
depends on the mount table.

Every mount is of the same file system and its root is the inode it is placed
on, so entering a mount never changes the inode. `MountInv` records that with
the other facts about the mount table that hold whatever the callers do; under
it `resolveFrom_walk` reads the inode off the tree.

## Theorems

* `resolveStep_ok`: What one successful component did.
* `resolveFrom_walk`: The inode a path names is where the tree leads.
* `resolveFrom_mount_used`: A walk stays in mounts in use.
* `resolveFrom_total`: A walk through the tree resolves in every namespace.
-/

namespace Norx

namespace Vfs

/-- Follow names from a directory. -/
def walkFrom (fs : FileSystem) : List Name → Nat → Option Nat
  | [], i => some i
  | component :: rest, i =>
    if (fs.inode i).kind = .directory then (findChild fs i component).bind (walkFrom fs rest)
    else none

theorem walkFrom_append (fs : FileSystem) (after : List Name) :
    ∀ (before : List Name) (i : Nat),
      walkFrom fs (before ++ after) i = (walkFrom fs before i).bind (walkFrom fs after) := by
  intro before
  induction before with
  | nil =>
    intro i
    rfl
  | cons component rest ih =>
    intro i
    rw [List.cons_append, walkFrom, walkFrom]
    by_cases hkind : (fs.inode i).kind = .directory
    · rw [if_pos hkind, if_pos hkind, Option.bind_assoc]
      simp only [ih]
    · rw [if_neg hkind, if_neg hkind]
      rfl

/-- What always holds of the mount and namespace tables: a mount's root is the
    inode it is placed on, which for one without a parent is the root of the
    tree; the root namespace exists and its root is mount zero; a namespace's
    root mount is its own and has no parent; and no two mounts sit on the same
    inode under the same mount. -/
structure MountInv (s : Vfs) : Prop where
  plain : ∀ id, (s.mounts.get id).used = true →
    (s.mounts.get id).rootInode = (s.mounts.get id).mountpointInode
  top : ∀ id, (s.mounts.get id).used = true → (s.mounts.get id).parent = none →
    (s.mounts.get id).mountpointInode = 0
  root_ns : s.namespaces.get rootNamespace = { used := true, rootMount := rootMount }
  ns_root : ∀ ns, (s.namespaces.get ns).used = true →
    (s.mounts.get (s.namespaces.get ns).rootMount).used = true ∧
    (s.mounts.get (s.namespaces.get ns).rootMount).ns = ns ∧
    (s.mounts.get (s.namespaces.get ns).rootMount).parent = none
  keys : ∀ id id' p, (s.mounts.get id).used = true → (s.mounts.get id').used = true →
    (s.mounts.get id).parent = some p → (s.mounts.get id').parent = some p →
    (s.mounts.get id).ns = (s.mounts.get id').ns →
    (s.mounts.get id).mountpointInode = (s.mounts.get id').mountpointInode → id = id'

variable {s : Vfs} {ns : NamespaceId} {mountpoint : Nat}

theorem findMountChild_some {parent id : MountId}
    (h : findMountChild s ns parent mountpoint = some id) :
    id < maxMounts ∧ (s.mounts.get id).used = true ∧ (s.mounts.get id).ns = ns ∧
      (s.mounts.get id).parent = some parent ∧ (s.mounts.get id).mountpointInode = mountpoint := by
  rcases Slots.position_eq_some.mp h with ⟨hlt, htest, _⟩
  simp at htest
  exact ⟨hlt, htest.1.1.1, htest.1.1.2, htest.1.2, htest.2⟩

theorem lt_of_mount_used {id : MountId} (h : (s.mounts.get id).used = true) : id < maxMounts := by
  by_contra hc
  rw [Slots.get_of_ge s.mounts (Nat.not_lt.mp hc)] at h
  exact absurd h (by decide)

theorem findMountChild_none {parent : MountId} (h : findMountChild s ns parent mountpoint = none)
    (id : MountId) (hused : (s.mounts.get id).used = true) (hns : (s.mounts.get id).ns = ns)
    (hparent : (s.mounts.get id).parent = some parent) :
    (s.mounts.get id).mountpointInode ≠ mountpoint := by
  intro hmp
  have htest := Slots.position_eq_none.mp h id (lt_of_mount_used hused)
  simp [hused, hns, hparent, hmp] at htest

section

variable (hinv : MountInv s)

include hinv

/-- The mount on an inode is the only one there, so finding it is a matter of
    exhibiting it. -/
theorem findMountChild_eq {id parent : MountId} (hused : (s.mounts.get id).used = true)
    (hparent : (s.mounts.get id).parent = some parent) :
    findMountChild s (s.mounts.get id).ns parent (s.mounts.get id).mountpointInode = some id := by
  cases h : findMountChild s (s.mounts.get id).ns parent (s.mounts.get id).mountpointInode with
  | none => exact absurd rfl (findMountChild_none h id hused rfl hparent)
  | some id' =>
    rcases findMountChild_some h with ⟨_, hused', hns', hparent', hmp'⟩
    rw [hinv.keys id' id parent hused' hused hparent' hparent hns' hmp']

variable {component : Name}

/-- What one successful component did: it went to the named child, and into
    the mount on it if there is one. -/
theorem resolveStep_ok {here next : MountId × Nat}
    (h : resolveStep s ns here component = .ok next) :
    (s.fs.inode here.2).kind = .directory ∧ findChild s.fs here.2 component = some next.2 ∧
      next.1 = (findMountChild s ns here.1 next.2).getD here.1 := by
  rw [resolveStep] at h
  by_cases hkind : (s.fs.inode here.2).kind = .directory
  · rw [if_neg (not_not.mpr hkind)] at h
    cases hchild : findChild s.fs here.2 component with
    | none =>
      rw [hchild] at h
      exact nomatch h
    | some inode =>
      rw [hchild] at h
      simp only at h
      cases hmount : findMountChild s ns here.1 inode with
      | none =>
        rw [hmount] at h
        rw [← Except.ok.inj h]
        exact ⟨hkind, rfl, by rw [hmount, Option.getD_none]⟩
      | some child =>
        rw [hmount] at h
        rcases except_bind_ok h with ⟨node, hnode, hnext⟩
        rcases mountNode_ok hnode with ⟨hused, rfl⟩
        -- The root of a mount is the inode it sits on, so the walk does not jump.
        rcases findMountChild_some hmount with ⟨_, _, _, _, hmp⟩
        have hroot : (s.mounts.get child).rootInode = inode := by
          rw [hinv.plain child hused, hmp]
        rw [hroot] at hnext
        rw [← Except.ok.inj hnext]
        exact ⟨hkind, rfl, by rw [hmount, Option.getD_some]⟩
  · rw [if_pos hkind] at h
    exact nomatch h

/-- Conversely, one step of the tree is one component of a walk. -/
theorem resolveStep_of_child (ns : NamespaceId) (here : MountId × Nat) {inode : Nat}
    (hkind : (s.fs.inode here.2).kind = .directory)
    (hchild : findChild s.fs here.2 component = some inode) :
    resolveStep s ns here component
      = .ok ((findMountChild s ns here.1 inode).getD here.1, inode) := by
  rw [resolveStep, if_neg (not_not.mpr hkind), hchild]
  simp only
  cases hmount : findMountChild s ns here.1 inode with
  | none => rfl
  | some child =>
    rcases findMountChild_some hmount with ⟨_, hused, _, _, hmp⟩
    have hroot : (s.mounts.get child).rootInode = inode := by
      rw [hinv.plain child hused, hmp]
    simp [mountNode, hused, bind, Except.bind, pure, Except.pure, hroot]

/-- The inode a walk arrives at is where the tree leads, mounts or no
    mounts. -/
theorem resolveFrom_walk :
    ∀ (components : List Name) (here there : MountId × Nat),
      resolveFrom s ns components here = .ok there →
      walkFrom s.fs components here.2 = some there.2 := by
  intro components
  induction components with
  | nil =>
    intro here there h
    rw [← Except.ok.inj h, walkFrom]
  | cons component rest ih =>
    intro here there h
    rcases resolveFrom_cons_ok h with ⟨next, hstep, hrest⟩
    rcases resolveStep_ok hinv hstep with ⟨hkind, hchild, _⟩
    rw [walkFrom, if_pos hkind, hchild]
    exact ih next there hrest

/-- A walk through the tree resolves in every namespace, from every mount. -/
theorem resolveFrom_total (ns : NamespaceId) :
    ∀ (components : List Name) (here : MountId × Nat) (i : Nat),
      walkFrom s.fs components here.2 = some i →
      ∃ mount, resolveFrom s ns components here = .ok (mount, i) := by
  intro components
  induction components with
  | nil =>
    intro here i h
    rw [walkFrom, Option.some.injEq] at h
    exact ⟨here.1, by rw [resolveFrom, ← h]⟩
  | cons component rest ih =>
    intro here i h
    rw [walkFrom] at h
    by_cases hkind : (s.fs.inode here.2).kind = .directory
    · rw [if_pos hkind, Option.bind_eq_some_iff] at h
      rcases h with ⟨inode, hchild, hrest⟩
      rw [resolveFrom, resolveStep_of_child hinv ns _ hkind hchild]
      exact ih _ i hrest
    · rw [if_neg hkind] at h
      cases h

/-- A walk that starts in a mount in use stays in mounts in use. -/
theorem resolveFrom_mount_used :
    ∀ (components : List Name) (here there : MountId × Nat),
      resolveFrom s ns components here = .ok there →
      (s.mounts.get here.1).used = true ∧ (s.mounts.get here.1).ns = ns →
      (s.mounts.get there.1).used = true ∧ (s.mounts.get there.1).ns = ns := by
  intro components
  induction components with
  | nil =>
    intro here there h hused
    rwa [← Except.ok.inj h]
  | cons component rest ih =>
    intro here there h hused
    rcases resolveFrom_cons_ok h with ⟨next, hstep, hrest⟩
    refine ih next there hrest ?_
    -- The step stayed in its mount, or entered one that was found in use.
    rcases resolveStep_ok hinv hstep with ⟨_, _, hmount⟩
    rw [hmount]
    cases hfind : findMountChild s ns here.1 next.2 with
    | none => exact hused
    | some child =>
      rcases findMountChild_some hfind with ⟨_, hchild, hns, _, _⟩
      exact ⟨hchild, hns⟩

/-- What a path that resolves arrives at: an inode of the tree, in a mount of
    the namespace. -/
theorem resolves_spec {mount : MountId} {i : Nat} (h : Resolves s ns mount i) :
    (∃ components, walkFrom s.fs components 0 = some i) ∧ (s.mounts.get mount).used = true ∧
      (s.mounts.get mount).ns = ns := by
  rcases h with ⟨start, components, hroot, hwalk⟩
  rcases namespaceRoot_ok hroot with ⟨hns, rfl⟩
  have hstart := hinv.ns_root ns hns
  have hmount := resolveFrom_mount_used hinv components _ _ hwalk ⟨hstart.1, hstart.2.1⟩
  exact ⟨⟨components, resolveFrom_walk hinv components _ _ hwalk⟩, hmount⟩

end

end Vfs

end Norx
