import Norx.Vfs.Attach

/-!
# Namespaces and Their Mounts

A namespace owns the mounts made in it, and both namespace numbers and mount
slots are recycled. `unmount_mount` refuses a mount that still has children,
but `destroy_namespace` clears the root mount alone: mounts below it stay in
the table under a number no namespace has, and the namespace that takes the
number next finds them there. `orphaned_mount` is such a run.

`emptyNamespaces` is the missing check. In every run that destroys a namespace
only once its root is the last mount in it, the mount table is a forest with
one tree per namespace, and a new namespace is empty but for its root.

## Theorems

* `change_namespaceInv`: Every change the policy allows keeps that.
* `orphaned_mount`: The run that leaves a mount behind.
* `namespaces_own_mounts`: Runs that destroy empty namespaces only.
-/

namespace Norx

namespace Vfs

open Fallible Slots

/-- A namespace is destroyed only when its root is the last mount in it. -/
def emptyNamespaces : Policy :=
  { Policy.any with destroyNamespace := fun s ns =>
      ∀ id, (s.mounts.get id).used = true → (s.mounts.get id).ns = ns →
        id = (s.namespaces.get ns).rootMount }

/-- Every mount in use is of a namespace in use, is under a mount in use of the
    same namespace, and if it is under none is the root of its namespace. -/
structure NamespaceInv (s : Vfs) : Prop where
  home : ∀ id, (s.mounts.get id).used = true → (s.namespaces.get (s.mounts.get id).ns).used = true
  up : ∀ id p, (s.mounts.get id).used = true → (s.mounts.get id).parent = some p →
    (s.mounts.get p).used = true ∧ (s.mounts.get p).ns = (s.mounts.get id).ns
  single : ∀ id, (s.mounts.get id).used = true → (s.mounts.get id).parent = none →
    (s.namespaces.get (s.mounts.get id).ns).rootMount = id

variable {s s' : Vfs}

theorem namespaceInv_congr (h : NamespaceInv s)
    (hmounts : ∀ id, SameMount (s'.mounts.get id) (s.mounts.get id))
    (hns : s'.namespaces = s.namespaces) : NamespaceInv s' where
  home := fun id hused => by
    rw [(hmounts id).used] at hused
    rw [(hmounts id).ns, hns]
    exact h.home id hused
  up := fun id p hused hp => by
    rw [(hmounts id).used] at hused
    rw [(hmounts id).parent] at hp
    rw [(hmounts p).used, (hmounts p).ns, (hmounts id).ns]
    exact h.up id p hused hp
  single := fun id hused hp => by
    rw [(hmounts id).used] at hused
    rw [(hmounts id).parent] at hp
    rw [(hmounts id).ns, hns]
    exact h.single id hused hp

theorem freshRamfs_namespaceInv : NamespaceInv freshRamfs := by
  have honly : ∀ id, (freshRamfs.mounts.get id).used = true → id = rootMount := by
    intro id hused
    by_contra hne
    rw [freshRamfs_mounts, if_neg hne] at hused
    exact absurd hused (by decide)
  refine ⟨?_, ?_, ?_⟩
  · intro id hused
    rw [honly id hused]
    decide
  · intro id p hused hp
    rw [honly id hused] at hp
    exact nomatch hp
  · intro id hused _
    rw [honly id hused]
    decide

variable {ns : NamespaceId}

section Tables

variable {s s' : Vfs} (h : NamespaceInv s)

include h

/-- Writing one mount that no other is under, and keeping the namespaces of the
    others: what is left to show is that it fits in. -/
theorem setMount_namespaceInv {index : MountId} {node : MountNode} (hlt : index < maxMounts)
    (hmounts : s'.mounts = s.mounts.set index node)
    (hhome : node.used = true → (s'.namespaces.get node.ns).used = true)
    (hup : node.used = true → ∀ p, node.parent = some p →
      (s'.mounts.get p).used = true ∧ (s'.mounts.get p).ns = node.ns)
    (hsingle : node.used = true → node.parent = none →
      (s'.namespaces.get node.ns).rootMount = index)
    (hchildren : ∀ id, (s.mounts.get id).used = true → id ≠ index →
      (s.mounts.get id).parent ≠ some index)
    (hns : ∀ id, (s.mounts.get id).used = true → id ≠ index →
      s'.namespaces.get (s.mounts.get id).ns = s.namespaces.get (s.mounts.get id).ns) :
    NamespaceInv s' := by
  have hget : ∀ id, s'.mounts.get id = if id = index then node else s.mounts.get id := by
    rw [hmounts]
    exact get_set s.mounts node hlt
  refine ⟨?_, ?_, ?_⟩
  · intro id hused
    rw [hget] at hused ⊢
    split_ifs at hused ⊢ with hid
    · exact hhome hused
    · rw [hns id hused hid]
      exact h.home id hused
  · intro id p hused hp
    rw [hget] at hused hp
    rw [hget id]
    split_ifs at hused hp ⊢ with hid
    · exact hup hused p hp
    · have hp' : p ≠ index := by
        rintro rfl
        exact hchildren id hused hid hp
      rw [hget, if_neg hp']
      exact h.up id p hused hp
  · intro id hused hp
    rw [hget] at hused hp ⊢
    split_ifs at hused hp ⊢ with hid
    · rw [hid]
      exact hsingle hused hp
    · rw [hns id hused hid]
      exact h.single id hused hp

/-- No mount in use is under a free slot. -/
theorem parent_ne_free {index : MountId} (hfree : (s.mounts.get index).used = false) (id : MountId)
    (hused : (s.mounts.get id).used = true) : (s.mounts.get id).parent ≠ some index := by
  intro hp
  exact ne_of_free hfree index (h.up id index hused hp).1 rfl

theorem addNamespace_namespaceInv {mount : MountId}
    (hns : positionFromOne s.namespaces (fun slot => !slot.used) = some ns)
    (hmount : positionFromOne s.mounts (fun node => !node.used) = some mount)
    (hmounts : s'.mounts = s.mounts.set mount (MountNode.root ns))
    (hnss : s'.namespaces = s.namespaces.set ns { used := true, rootMount := mount }) :
    NamespaceInv s' := by
  rcases positionFromOne_some hns with ⟨-, hnslt, hnsfree⟩
  rcases positionFromOne_some hmount with ⟨-, hmlt, hmfree⟩
  rw [Bool.not_eq_true'] at hnsfree hmfree
  have hself : s'.namespaces.get ns = { used := true, rootMount := mount } := by
    rw [hnss, get_set_self _ _ hnslt]
  refine setMount_namespaceInv h hmlt hmounts (fun _ => ?_) (fun _ _ => nofun) (fun _ _ => ?_)
    (fun id hused _ => parent_ne_free h hmfree id hused) fun id hused _ => ?_
  · rw [MountNode.root, hself]
  · rw [MountNode.root, hself]
  · -- The number was free, so no mount in use was of it.
    rw [hnss]
    refine get_set_other _ _ (fun hc => ?_)
    have hhome := h.home id hused
    rw [hc, hnsfree] at hhome
    exact absurd hhome (by decide)

end Tables

/-- Every change the policy allows keeps mounts with their namespaces. -/
theorem change_namespaceInv (hm : MountInv s) (h : NamespaceInv s)
    (hc : Change emptyNamespaces s s') : NamespaceInv s' := by
  cases hc with
  | addMount hresolves _ _ _ _ hindex _ =>
    rcases mountSlot_free hindex with ⟨hlt, hfree⟩
    rcases resolves_spec hm hresolves with ⟨-, hup, hsame⟩
    rcases hresolves with ⟨start, _, hroot, _⟩
    refine setMount_namespaceInv h hlt rfl (fun _ => (namespaceRoot_ok hroot).1) (fun _ p hp => ?_)
      (fun _ => nofun) (fun id hused _ => parent_ne_free h hfree id hused) (fun _ _ _ => rfl)
    -- The parent is in use, so it is not the slot taken.
    cases hp
    change ((s.mounts.set _ _).get _).used = true ∧ ((s.mounts.set _ _).get _).ns = _
    rw [get_set_other _ _ (ne_of_free hfree _ hup)]
    exact ⟨hup, hsame⟩
  | @removeMount index hused _ _ _ hchildren _ =>
    -- `unmount_mount` is busy while a mount is under this one.
    refine setMount_namespaceInv h (lt_of_mount_used hused) rfl nofun nofun nofun (fun id hid _ hp => ?_)
      (fun _ _ _ => rfl)
    have hnone := any_eq_false.mp hchildren id (lt_of_mount_used hid)
    simp [hid, hp] at hnone
  | addNamespace hns hmount _ => exact addNamespace_namespaceInv h hns hmount rfl rfl
  | @removeNamespace ns root _ hroot _ _ hallowed =>
    rcases namespaceRoot_ok hroot with ⟨hns, rfl⟩
    have hnode := hm.ns_root ns hns
    -- Nothing else is of the namespace, so nothing is under its root.
    have hforeign : ∀ id, (s.mounts.get id).used = true →
        id ≠ (s.namespaces.get ns).rootMount → (s.mounts.get id).ns ≠ ns :=
      fun id hused hne hid => hne (hallowed id hused hid)
    refine setMount_namespaceInv h (lt_of_mount_used hnode.1) rfl nofun nofun nofun
      (fun id hused hne hp => ?_) (fun id hused hne => get_set_other _ _ (hforeign id hused hne))
    have hup := (h.up id _ hused hp).2
    rw [hnode.2.1] at hup
    exact hforeign id hused hne hup.symm
  | hold _ _ => exact namespaceInv_congr h (sameMount_held s _ _ _) rfl
  | release _ _ => exact namespaceInv_congr h (sameMount_released s _ _) rfl
  | fresh _ => exact freshRamfs_namespaceInv
  | _ => exact namespaceInv_congr h (fun id => SameMount.refl _) rfl

theorem run_namespaceInv (calls : List Call)
    (hcalls : Obeys World.step (Allowed emptyNamespaces) World.start calls) :
    NamespaceInv (run World.step World.start calls).vfs := by
  have hboth := run_vfs_invariant emptyNamespaces (fun s => TablesInv s ∧ NamespaceInv s)
    ⟨⟨freshRamfs_mountInv, freshRamfs_treeInv⟩, freshRamfs_namespaceInv⟩
    (fun s s' h hc => ⟨change_tablesInv h.1 hc, change_namespaceInv h.1.1 h.2 hc⟩) calls hcalls
  exact hboth.2

/-- The state a successful `create_namespace` leaves: one mount of the new
    namespace. -/
theorem createNamespace_ok (h : NamespaceInv s) (hcall : createNamespace s = (.ok ns, s')) :
    mountCount s' ns = 1 ∧ ∃ mount, namespaceRoot s' ns = .ok mount ∧
      ∀ id, ((s'.mounts.get id).used = true ∧ (s'.mounts.get id).ns = ns) ↔ id = mount := by
  rcases wp_ok hcall (createNamespace_spec s) with ⟨mount, hns, hmount, rfl⟩
  rcases positionFromOne_some hns with ⟨-, hnslt, hnsfree⟩
  rcases positionFromOne_some hmount with ⟨-, hmlt, hmfree⟩
  rw [Bool.not_eq_true'] at hnsfree hmfree
  -- No mount is left over from an earlier namespace of this number.
  have hnone : ∀ id, (s.mounts.get id).used = true → (s.mounts.get id).ns ≠ ns := by
    intro id hused hid
    have hhome := h.home id hused
    rw [hid, hnsfree] at hhome
    exact absurd hhome (by decide)
  refine ⟨?_, mount, ?_, ?_⟩
  · have hzero : s.mounts.count (fun node => node.used && node.ns == ns) = 0 := by
      refine count_eq_zero _ _ (fun id _ => ?_)
      cases hused : (s.mounts.get id).used with
      | false => rfl
      | true =>
        exact beq_eq_false_iff_ne.mpr (hnone id hused)
    have hcount := count_set_true s.mounts (fun node => node.used && node.ns == ns) hmlt
      (a := MountNode.root ns) (by rw [hmfree]; rfl)
      (by simp [MountNode.root])
    -- None before, and the root mount now.
    rw [hzero] at hcount
    exact hcount
  · have hself : (s.namespaces.set ns { used := true, rootMount := mount }).get ns
        = { used := true, rootMount := mount } := get_set_self _ _ hnslt
    change (if ((s.namespaces.set ns _).get ns).used = true
      then Except.ok ((s.namespaces.set ns _).get ns).rootMount else _) = _
    rw [hself, if_pos rfl]
  · intro id
    change (((s.mounts.set mount (MountNode.root ns)).get id).used = true
      ∧ ((s.mounts.set mount (MountNode.root ns)).get id).ns = ns) ↔ id = mount
    rw [get_set s.mounts _ hmlt]
    by_cases hid : id = mount
    · rw [if_pos hid]
      exact ⟨fun _ => hid, fun _ => ⟨rfl, rfl⟩⟩
    · rw [if_neg hid]
      exact ⟨fun hold => absurd hold.2 (hnone id hold.1), fun hc => absurd hc hid⟩

/-- In a namespace with a single mount every path that exists leads to it. -/
theorem resolveMount_single {s : Vfs} (hm : MountInv s) {mount : MountId}
    (hroot : namespaceRoot s ns = .ok mount)
    (honly : ∀ id, ((s.mounts.get id).used = true ∧ (s.mounts.get id).ns = ns) ↔ id = mount)
    {path : Path} {components : List Name} {i : Nat} (hparse : parsePath path = .ok components)
    (hwalk : walkFrom s.fs components 0 = some i) : resolveMount s path ns = .ok (mount, i) := by
  rcases resolveFrom_total hm ns components (mount, 0) i hwalk with ⟨m, hres⟩
  have hmount := resolveFrom_mount_used hm components _ _ hres ((honly mount).mpr rfl)
  rw [(honly m).mp hmount] at hres
  simp only [resolveMount, hparse, hroot, bind, Except.bind]
  exact hres

/-- Without the check a mount outlives its namespace: one made in namespace 1
    is still in use after the namespace is destroyed, and the next namespace
    to take the number has two mounts and resolves `/a` to the old one. -/
theorem orphaned_mount :
    let calls := [Call.mkdir [47, 97], Call.createNamespace,
      Call.mountInNamespace 1 .ramfs [47, 97] MountFlags.defaults .private_,
      Call.destroyNamespace 1]
    let s := (run World.step World.start calls).vfs
    (s.mounts.get 2).used = true ∧ (s.mounts.get 2).ns = 1 ∧ (s.namespaces.get 1).used = false ∧
    (s.mounts.get 2).parent = some 1 ∧ (s.mounts.get 1).used = false ∧
    (createNamespace s).1 = .ok 1 ∧ mountCount (createNamespace s).2 1 = 2 ∧
    resolveMount (createNamespace s).2 [47, 97] 1 = .ok (2, 1) := by
  decide +kernel

/-- In every run that destroys a namespace only when its root is the last
    mount in it: each mount in use is of a namespace in use and under a mount
    in use of the same namespace, the mount without a parent is the root of its
    namespace and the only one, and a namespace just created has one mount, to
    which every path that exists resolves. -/
theorem namespaces_own_mounts (calls : List Call)
    (hcalls : Obeys World.step (Allowed emptyNamespaces) World.start calls) :
    let s := (run World.step World.start calls).vfs
    (∀ id, (s.mounts.get id).used = true →
      (s.namespaces.get (s.mounts.get id).ns).used = true ∧
      ∀ p, (s.mounts.get id).parent = some p →
        (s.mounts.get p).used = true ∧ (s.mounts.get p).ns = (s.mounts.get id).ns) ∧
    (∀ ns, (s.namespaces.get ns).used = true → ∀ id,
      ((s.mounts.get id).used = true ∧ (s.mounts.get id).ns = ns ∧ (s.mounts.get id).parent = none)
        ↔ id = (s.namespaces.get ns).rootMount) ∧
    (∀ ns s', createNamespace s = (.ok ns, s') → mountCount s' ns = 1 ∧
      ∃ mount, namespaceRoot s' ns = .ok mount ∧
        (∀ id, ((s'.mounts.get id).used = true ∧ (s'.mounts.get id).ns = ns) ↔ id = mount) ∧
        ∀ path other here i, resolveMount s' path other = .ok (here, i) →
          resolveMount s' path ns = .ok (mount, i)) := by
  intro s
  have ht : TablesInv s := reachable_tablesInv calls
  have h : NamespaceInv s := run_namespaceInv calls hcalls
  refine ⟨fun id hused => ⟨h.home id hused, fun p hp => h.up id p hused hp⟩, ?_, ?_⟩
  · intro ns hns id
    constructor
    · rintro ⟨hused, rfl, hp⟩
      exact (h.single id hused hp).symm
    · rintro rfl
      exact ht.1.ns_root ns hns
  · intro ns s' hcall
    rcases createNamespace_ok h hcall with ⟨hcount, mount, hroot, honly⟩
    -- The new state is a step further on than the run, and the walk needs its mounts.
    have hm' : MountInv s' := by
      have hdoes := wp_ok hcall (createNamespace_does (π := .any) (Call.scope s .forget) s trivial)
      exact change_mountInv ht.1 hdoes.1
    refine ⟨hcount, mount, hroot, honly, ?_⟩
    intro path other here i hres
    rcases resolveMount_ok hres with ⟨components, start, hparse, _, hwalk⟩
    exact resolveMount_single hm' hroot honly hparse (resolveFrom_walk hm' components _ _ hwalk)

/-- A run that creates a namespace, mounts in it, unmounts and destroys it. -/
theorem namespaces_own_mounts_cycle :
    let calls := [Call.mkdir [47, 97], Call.createNamespace,
      Call.mountInNamespace 1 .ramfs [47, 97] MountFlags.defaults .private_, Call.unmountMount 2,
      Call.destroyNamespace 1]
    let s := (run World.step World.start calls).vfs
    (createNamespace s).1 = .ok 1 ∧ mountCount (createNamespace s).2 1 = 1 := by
  intro calls s
  have hns : (createNamespace s).1 = .ok 1 := by decide +kernel
  refine ⟨hns, ?_⟩
  refine ((namespaces_own_mounts calls ⟨trivial, trivial, trivial, trivial, ?_, trivial⟩).2.2 1
    (createNamespace s).2 (Prod.ext hns rfl)).1
  -- Of the slots in use before the last call, only mount 1 is of the namespace.
  intro id hused hid
  have hall : ∀ id, id < maxMounts →
      ((run World.step World.start (calls.take 4)).vfs.mounts.get id).used = true →
      ((run World.step World.start (calls.take 4)).vfs.mounts.get id).ns = 1 →
      id = ((run World.step World.start (calls.take 4)).vfs.namespaces.get 1).rootMount := by
    decide +kernel
  exact hall id (lt_of_mount_used hused) hused hid

end Vfs

end Norx
