import Norx.Vfs.Attach

/-!
# Where a New Mount Is Seen

`mount_in_namespace` records as the new mount's parent the mount its target
resolved to, and resolution enters a mount only from its parent. On a target
that is not a mountpoint yet these fit together: the walk arrives at the target
in the parent, finds the new mount there and enters it.

On a target that already is a mountpoint they do not. The target resolves to
the mount on it, so that becomes the parent of the new mount, on the same inode.
The check for a mount already there looks under that parent and finds nothing.
Resolution looks up one mount per component, so it enters the old mount and
never the new one. `mount_takes_effect` says that this is the only exception.

## Theorems

* `walkFrom_below`: A walk leads downwards.
* `findMountChild_iff`: Which mount is found.
* `resolveFrom_before`: A walk to above the target is not affected.
* `stacked_mount`: A mount that is never entered.
* `mount_takes_effect`: When a mount takes effect.
-/

namespace Norx

namespace Vfs

open Fallible

/-- No mount under the mount `id` sits on anything the names lead to. -/
def Unmounted (s : Vfs) (ns : NamespaceId) (id : MountId) : List Name → Nat → Prop
  | [], _ => True
  | component :: rest, i => ∀ d, findChild s.fs i component = some d →
      findMountChild s ns id d = none ∧ Unmounted s ns id rest d

theorem child_of_findChild {fs : FileSystem} {d i : Nat} {name : Name}
    (h : findChild fs d name = some i) : (tree fs).Child d i := by
  rcases findChild_some h with ⟨k, hk⟩
  exact ⟨k, name, hk⟩

/-- A walk leads downwards. -/
theorem walkFrom_below {fs : FileSystem} :
    ∀ (components : List Name) (i j : Nat), walkFrom fs components i = some j →
      Relation.ReflTransGen (tree fs).Child i j := by
  intro components
  induction components with
  | nil =>
    intro i j h
    rw [walkFrom, Option.some.injEq] at h
    rw [h]
  | cons component rest ih =>
    intro i j h
    rw [walkFrom] at h
    by_cases hkind : (fs.inode i).kind = .directory
    · rw [if_pos hkind, Option.bind_eq_some_iff] at h
      rcases h with ⟨child, hchild, hrest⟩
      exact Relation.ReflTransGen.head (child_of_findChild hchild) (ih child j hrest)
    · rw [if_neg hkind] at h
      cases h

variable {s : Vfs} {ns : NamespaceId}

/-- Which mount is found: with unique keys, the one with the right key. -/
theorem findMountChild_iff (hm : MountInv s) {parent id : MountId} {mountpoint : Nat} :
    findMountChild s ns parent mountpoint = some id ↔
      (s.mounts.get id).used = true ∧ (s.mounts.get id).ns = ns ∧
      (s.mounts.get id).parent = some parent ∧ (s.mounts.get id).mountpointInode = mountpoint := by
  constructor
  · intro h
    exact (findMountChild_some h).2
  · rintro ⟨hused, rfl, hparent, rfl⟩
    exact findMountChild_eq hm hused hparent

theorem resolveFrom_append (after : List Name) :
    ∀ (before : List Name) (here : MountId × Nat),
      resolveFrom s ns (before ++ after) here
        = resolveFrom s ns before here >>= resolveFrom s ns after := by
  intro before
  induction before with
  | nil =>
    intro here
    rfl
  | cons component rest ih =>
    intro here
    rw [List.cons_append, resolveFrom, resolveFrom]
    cases hstep : resolveStep s ns here component with
    | error e => rfl
    | ok next => exact ih next

variable {components : List Name}

/-- The mount a walk is in sits above the place it is at, or on the root. -/
theorem mountpoint_above (ht : TablesInv s) {start : MountId}
    (hstart : namespaceRoot s ns = .ok start) {there : MountId × Nat}
    (hwalk : resolveFrom s ns components (start, 0) = .ok there) :
    (s.mounts.get there.1).mountpointInode = 0 ∨
      Relation.ReflTransGen (tree s.fs).Child (s.mounts.get there.1).mountpointInode there.2 := by
  rcases resolveFrom_enters ht.1 components (start, 0) hwalk with
    hid | ⟨before, after, rfl, hbefore⟩
  · rcases namespaceRoot_ok hstart with ⟨hns, rfl⟩
    have hroot := ht.1.ns_root ns hns
    rw [← hid]
    exact .inl (ht.1.top _ hroot.1 hroot.2.2)
  · -- The walk entered the mount at its mountpoint and went on down from there.
    rw [resolveFrom_append, hbefore] at hwalk
    exact .inr (walkFrom_below after _ _ (resolveFrom_walk ht.1 after _ _ hwalk))

/-- Below a mount, with no further mount on the way, everything is in it. -/
theorem resolveFrom_unmounted (hm : MountInv s) {id : MountId} :
    ∀ (components : List Name) (i j : Nat), walkFrom s.fs components i = some j →
      Unmounted s ns id components i → resolveFrom s ns components (id, i) = .ok (id, j) := by
  intro components
  induction components with
  | nil =>
    intro i j hwalk _
    rw [walkFrom, Option.some.injEq] at hwalk
    rw [resolveFrom, hwalk]
  | cons component rest ih =>
    intro i j hwalk hclear
    rw [walkFrom] at hwalk
    by_cases hkind : (s.fs.inode i).kind = .directory
    · rw [if_pos hkind, Option.bind_eq_some_iff] at hwalk
      rcases hwalk with ⟨d, hchild, hrest⟩
      rcases hclear d hchild with ⟨hnone, hclear⟩
      have hstep := resolveStep_of_child hm ns (id, i) hkind hchild
      rw [hnone] at hstep
      rw [resolveFrom, hstep]
      exact ih d j hrest hclear
    · rw [if_neg hkind] at hwalk
      cases hwalk

/-- The state after a mount is put in a free slot. -/
structure Placed (s s' : Vfs) (id : MountId) (node : MountNode) : Prop where
  tables : TablesInv s
  mountInv : MountInv s'
  slot : id < maxMounts
  free : (s.mounts.get id).used = false
  used : node.used = true
  mounts : s'.mounts = s.mounts.set id node
  namespaces : s'.namespaces = s.namespaces
  fs : s'.fs = s.fs

section Placed

variable {s s' : Vfs} {id : MountId} {node : MountNode} (h : Placed s s' id node)

include h

theorem placed_get (j : MountId) :
    s'.mounts.get j = if j = id then node else s.mounts.get j := by
  rw [h.mounts]
  exact Slots.get_set s.mounts node h.slot j

/-- The new mount is found where it was placed. -/
theorem findMountChild_placed {parent : MountId} (hparent : node.parent = some parent) :
    findMountChild s' node.ns parent node.mountpointInode = some id := by
  rw [findMountChild_iff h.mountInv, placed_get h, if_pos rfl]
  exact ⟨h.used, rfl, hparent, rfl⟩

/-- Elsewhere the same mounts are found as before. -/
theorem findMountChild_elsewhere (ns : NamespaceId) {m : MountId} {d : Nat}
    (hne : node.parent ≠ some m ∨ node.mountpointInode ≠ d) :
    findMountChild s' ns m d = findMountChild s ns m d := by
  ext j
  rw [findMountChild_iff h.mountInv, findMountChild_iff h.tables.1, placed_get h]
  by_cases hj : j = id
  · -- The new mount does not match the key, and its slot was free before.
    rw [if_pos hj, hj, h.free]
    constructor
    · rintro ⟨-, -, hp, hd⟩
      rcases hne with hne | hne
      · exact absurd hp hne
      · exact absurd hd hne
    · rintro ⟨hold, -⟩
      exact absurd hold (by decide)
  · rw [if_neg hj]

theorem resolveStep_elsewhere {here next : MountId × Nat} {component : Name}
    (hstep : resolveStep s ns here component = .ok next)
    (hne : node.parent ≠ some here.1 ∨ node.mountpointInode ≠ next.2) :
    resolveStep s' ns here component = .ok next := by
  rcases resolveStep_ok h.tables.1 hstep with ⟨hkind, hchild, hmount⟩
  have hfind := findMountChild_elsewhere h ns hne
  rw [← h.fs] at hkind hchild
  rw [resolveStep_of_child h.mountInv ns _ hkind hchild, hfind, ← hmount]

/-- A walk that ends above the mountpoint goes as before: everything it passes
    is above the mountpoint as well, hence not the mountpoint. -/
theorem resolveFrom_before :
    ∀ (components : List Name) (here there : MountId × Nat),
      resolveFrom s ns components here = .ok there →
      Relation.TransGen (tree s.fs).Child there.2 node.mountpointInode →
      resolveFrom s' ns components here = .ok there := by
  intro components
  induction components with
  | nil =>
    intro here there hwalk _
    exact hwalk
  | cons component rest ih =>
    intro here there hwalk habove
    rcases resolveFrom_cons_ok hwalk with ⟨next, hstep, hrest⟩
    have hdown := walkFrom_below rest _ _ (resolveFrom_walk h.tables.1 rest next there hrest)
    -- The mountpoint is below this step, and not below itself.
    have hne : node.mountpointInode ≠ next.2 := by
      intro hc
      have hloop := Relation.TransGen.trans_right hdown habove
      rw [hc] at hloop
      exact h.tables.2.child_irrefl hloop
    have hstep' := resolveStep_elsewhere h hstep (.inr hne)
    rw [resolveFrom, hstep']
    exact ih next there hrest habove

/-- Where the target resolves afterwards: the last component enters the new
    mount if the walk is still in its parent there, and the mount on the target
    that the walk entered before otherwise. -/
theorem resolveFrom_target {parent start : MountId} (hparent : node.parent = some parent)
    (hstart : namespaceRoot s node.ns = .ok start)
    (hwalk : resolveFrom s node.ns components (start, 0) = .ok (parent, node.mountpointInode))
    (hfresh : findMountChild s node.ns parent node.mountpointInode = none)
    (hne : node.mountpointInode ≠ 0) :
    resolveFrom s' node.ns components (start, 0)
      = .ok (if (s.mounts.get parent).mountpointInode = node.mountpointInode then parent else id,
          node.mountpointInode) := by
  rcases List.eq_nil_or_concat components with rfl | ⟨before, last, rfl⟩
  · exact absurd (Prod.mk.inj (Except.ok.inj hwalk)).2.symm hne
  rw [List.concat_eq_append] at hwalk ⊢
  -- The walk up to the last component, which ends above the target.
  rw [resolveFrom_append] at hwalk ⊢
  rcases except_bind_ok hwalk with ⟨above, hbefore, hlast⟩
  have hstep : resolveStep s node.ns above last = .ok (parent, node.mountpointInode) := by
    rcases resolveFrom_cons_ok hlast with ⟨next, hstep, hend⟩
    rw [hstep]
    exact hend
  rcases resolveStep_ok h.tables.1 hstep with ⟨hkind, hchild, hmount⟩
  have hafter := resolveFrom_before h before _ _ hbefore
    (Relation.TransGen.single (child_of_findChild hchild))
  rw [hafter]
  have hkind' : (s'.fs.inode above.2).kind = .directory := by
    rw [h.fs]
    exact hkind
  have hchild' : findChild s'.fs above.2 last = some node.mountpointInode := by
    rw [h.fs]
    exact hchild
  change resolveFrom s' node.ns [last] above = _
  simp only [resolveFrom]
  rw [resolveStep_of_child h.mountInv node.ns _ hkind' hchild']
  cases hfind : findMountChild s node.ns above.1 node.mountpointInode with
  | none =>
    -- Still in the parent: the new mount is found, and the parent sits elsewhere.
    rw [hfind, Option.getD_none] at hmount
    have hsits := mountpoint_above h.tables hstart hbefore
    rw [← hmount] at hsits
    rw [← hmount, findMountChild_placed h hparent, Option.getD_some, if_neg]
    intro hc
    -- The parent's mountpoint is above the walk, which is above the target.
    rcases hsits with hroot | hdown
    · exact hne (hc.symm.trans hroot)
    · rw [hc] at hdown
      exact h.tables.2.child_irrefl
        (Relation.TransGen.tail' hdown (child_of_findChild hchild))
  | some child =>
    -- The last component enters the mount already there, as it did before.
    rw [hfind, Option.getD_some] at hmount
    have hkey := findMountChild_some hfind
    rw [← hmount] at hkey hfind
    have hmne : node.parent ≠ some above.1 := by
      rw [hparent]
      intro hc
      rw [Option.some.injEq] at hc
      rw [← hc, hfresh] at hfind
      cases hfind
    rw [findMountChild_elsewhere h node.ns (.inl hmne), hfind, Option.getD_some,
      if_pos hkey.2.2.2.2]

end Placed

/-- What a successful `mount_in_namespace` found and placed. -/
theorem mountInNamespace_placed {s' : Vfs} (ht : TablesInv s) {target : Path} {flags : MountFlags}
    {propagation : Propagation} {id : MountId}
    (hcall : mountInNamespace ns .ramfs target flags propagation s = (.ok id, s')) :
    ∃ parent mountpoint, resolveMount s target ns = .ok (parent, mountpoint) ∧ mountpoint ≠ 0 ∧
      (s.mounts.get parent).used = true ∧ findMountChild s ns parent mountpoint = none ∧
      Placed s s' id
        { used := true, ns, parent := some parent, mountpointInode := mountpoint,
          rootInode := mountpoint, source := .ramfs, flags, propagation,
          dentryReferences := 0 } := by
  have hdoes := wp_ok hcall (mountInNamespace_does (π := .any) (Call.scope s .forget) ns .ramfs
    target flags propagation s trivial)
  have hm' := change_mountInv ht.1 hdoes.1
  rcases wp_ok hcall (mountInNamespace_spec ns .ramfs target flags propagation s) with
    ⟨parent, mountpoint, hres, hne, _, hused, hfresh, hindex, rfl⟩
  rcases mountSlot_free hindex with ⟨hlt, hfree⟩
  exact ⟨parent, mountpoint, hres, hne, hused, hfresh, ht, hm', hlt, hfree, rfl, rfl, rfl, rfl⟩

/-- Mounting twice on `/a` gives mounts 1 and 2, and `/a` still resolves to
    mount 1, so a read-only second mount protects nothing. -/
theorem stacked_mount :
    let calls := [Call.mkdir [47, 97],
      Call.mountInNamespace rootNamespace .ramfs [47, 97] MountFlags.defaults .private_]
    let s := (run World.step World.start calls).vfs
    let after := mountInNamespace rootNamespace .ramfs [47, 97]
      { MountFlags.defaults with readOnly := true } .private_ s
    after.1 = .ok 2 ∧ resolveMount after.2 [47, 97] rootNamespace = .ok (1, 1) := by
  decide +kernel

/-- When a mount takes effect. In every reachable state a successful
    `mount_in_namespace` has resolved its target to some mount and inode, and
    afterwards the target, and everything below it with no further mount on the
    way, resolves to the new mount with the flags asked for, exactly if that
    inode was not already the mountpoint of that mount. -/
theorem mount_takes_effect (calls : List Call) (ns : NamespaceId) (target : Path)
    (flags : MountFlags) (propagation : Propagation) (id : MountId) (s' : Vfs)
    (hcall : mountInNamespace ns .ramfs target flags propagation
      (run World.step World.start calls).vfs = (.ok id, s')) :
    let s := (run World.step World.start calls).vfs
    ∃ components parent mountpoint, parsePath target = .ok components ∧
      resolveMount s target ns = .ok (parent, mountpoint) ∧
      ((resolveMount s' target ns = .ok (id, mountpoint) ∧
        (∀ path rest i, parsePath path = .ok (components ++ rest) →
          walkFrom s'.fs (components ++ rest) 0 = some i →
          Unmounted s' ns id rest mountpoint → resolveMount s' path ns = .ok (id, i)) ∧
        mountFlags s' id = .ok flags)
      ↔ (s.mounts.get parent).mountpointInode ≠ mountpoint) := by
  intro s
  have ht : TablesInv s := reachable_tablesInv calls
  rcases mountInNamespace_placed ht hcall with
    ⟨parent, mountpoint, hres, hne, hused, hfresh, hplaced⟩
  rcases resolveMount_ok hres with ⟨components, start, hparse, hroot, hwalk⟩
  refine ⟨components, parent, mountpoint, hparse, hres, ?_⟩
  have htarget := resolveFrom_target hplaced rfl hroot hwalk hfresh hne
  have hroot' : namespaceRoot s' ns = .ok start := by
    rw [namespaceRoot, hplaced.namespaces]
    exact hroot
  -- A path below the target is the walk to the target and the rest of the way.
  have hresolve : ∀ path rest, parsePath path = .ok (components ++ rest) →
      resolveMount s' path ns
        = resolveFrom s' ns components (start, 0) >>= resolveFrom s' ns rest := by
    intro path rest hpath
    rw [← resolveFrom_append]
    simp only [resolveMount, hpath, hroot', bind, Except.bind]
  simp only at htarget
  constructor
  · rintro ⟨heffect, -, -⟩ hold
    -- The walk enters the old mount, which is in use, while the new one took a free slot.
    have hnil : parsePath target = .ok (components ++ []) := by
      rw [List.append_nil]
      exact hparse
    rw [hresolve target [] hnil, htarget, if_pos hold] at heffect
    have hid : parent = id := (Prod.mk.inj (Except.ok.inj heffect)).1
    rw [hid, hplaced.free] at hused
    exact absurd hused (by decide)
  · intro hold
    rw [if_neg hold] at htarget
    have hbelow : ∀ path rest i, parsePath path = .ok (components ++ rest) →
        walkFrom s'.fs (components ++ rest) 0 = some i →
        Unmounted s' ns id rest mountpoint → resolveMount s' path ns = .ok (id, i) := by
      intro path rest i hpath hexists hclear
      have hmp : walkFrom s'.fs components 0 = some mountpoint := by
        rw [hplaced.fs]
        exact resolveFrom_walk ht.1 components _ _ hwalk
      rw [walkFrom_append, hmp, Option.bind_some] at hexists
      rw [hresolve path rest hpath, htarget]
      exact resolveFrom_unmounted hplaced.mountInv rest mountpoint i hexists hclear
    refine ⟨?_, hbelow, ?_⟩
    · simp only [resolveMount, hparse, hroot', bind, Except.bind]
      exact htarget
    · simp only [mountFlags, mountNode, placed_get hplaced, if_true, bind, Except.bind, pure,
        Except.pure]

/-- A first mount on `/a`, as `mount_library_roots` makes them. -/
theorem mount_takes_effect_once :
    let s := (run World.step World.start [Call.mkdir [47, 97]]).vfs
    let after := mountInNamespace rootNamespace .ramfs [47, 97] MountFlags.defaults .private_ s
    after.1 = .ok 1 ∧ resolveMount after.2 [47, 97] rootNamespace = .ok (1, 1) := by
  intro s after
  have hok : after.1 = .ok 1 := by decide +kernel
  have hbefore : resolveMount s [47, 97] rootNamespace = .ok (0, 1) := by decide +kernel
  rcases mount_takes_effect [Call.mkdir [47, 97]] rootNamespace [47, 97] MountFlags.defaults
    .private_ 1 after.2 (Prod.ext hok rfl) with ⟨_, parent, mountpoint, -, hres, hiff⟩
  obtain ⟨rfl, rfl⟩ := Prod.mk.inj (Except.ok.inj (hbefore.symm.trans hres))
  exact ⟨hok, (hiff.mpr (by decide +kernel)).1⟩

end Vfs

end Norx
