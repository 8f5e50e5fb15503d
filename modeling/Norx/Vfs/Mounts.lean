import Norx.Vfs.Walk

/-!
# The Mount Table

`MountInv` holds in every state, whatever the callers do. Most changes do not
touch the mount and namespace tables, or only count references in them, and
`mountInv_congr` disposes of all of those at once; the four that do are the
ones that add or remove a mount or a namespace.

## Theorems

* `change_mountInv`: Every change keeps the mount table well formed.
-/

namespace Norx

namespace Vfs

open Slots

/-- Two mount nodes that agree on everything the tree of mounts is made of. -/
structure SameMount (a b : MountNode) : Prop where
  used : a.used = b.used
  ns : a.ns = b.ns
  parent : a.parent = b.parent
  mountpointInode : a.mountpointInode = b.mountpointInode
  rootInode : a.rootInode = b.rootInode

theorem SameMount.refl (a : MountNode) : SameMount a a := ⟨rfl, rfl, rfl, rfl, rfl⟩

variable {s : Vfs}

theorem mountInv_congr {s' : Vfs} (hinv : MountInv s)
    (hmounts : ∀ id, SameMount (s'.mounts.get id) (s.mounts.get id))
    (hns : s'.namespaces = s.namespaces) : MountInv s' where
  plain := fun id hused => by
    rw [(hmounts id).used] at hused
    rw [(hmounts id).rootInode, (hmounts id).mountpointInode]
    exact hinv.plain id hused
  top := fun id hused hp => by
    rw [(hmounts id).used] at hused
    rw [(hmounts id).parent] at hp
    rw [(hmounts id).mountpointInode]
    exact hinv.top id hused hp
  root_ns := by
    rw [hns]
    exact hinv.root_ns
  ns_root := fun ns hused => by
    rw [hns] at hused ⊢
    rw [(hmounts _).used, (hmounts _).ns, (hmounts _).parent]
    exact hinv.ns_root ns hused
  keys := fun id id' p hused hused' hp hp' hsame hmp => by
    rw [(hmounts _).used] at hused hused'
    rw [(hmounts _).parent] at hp hp'
    rw [(hmounts _).ns, (hmounts _).ns] at hsame
    rw [(hmounts _).mountpointInode, (hmounts _).mountpointInode] at hmp
    exact hinv.keys id id' p hused hused' hp hp' hsame hmp

/-- Counting a reference leaves the tree of mounts as it is. -/
theorem sameMount_setReferences (s : Vfs) (mount : MountId) (n : Nat) (id : MountId) :
    SameMount ((s.mounts.set mount { s.mounts.get mount with dentryReferences := n }).get id)
      (s.mounts.get id) := by
  by_cases hid : id = mount
  · subst hid
    by_cases hlt : id < maxMounts
    · rw [get_set_self _ _ hlt]
      exact ⟨rfl, rfl, rfl, rfl, rfl⟩
    · rw [get_of_ge _ (Nat.not_lt.mp hlt), get_of_ge _ (Nat.not_lt.mp hlt)]
      exact SameMount.refl _
  · rw [get_set_other _ _ hid]
    exact SameMount.refl _

theorem sameMount_held (s : Vfs) (slot : Nat) (mount : MountId) (inode : Nat) (id : MountId) :
    SameMount ((held s slot mount inode).mounts.get id) (s.mounts.get id) :=
  sameMount_setReferences s mount _ id

theorem sameMount_released (s : Vfs) (slot : Nat) (mount id : MountId) :
    SameMount ((released s slot mount).mounts.get id) (s.mounts.get id) :=
  sameMount_setReferences s mount _ id

variable {ns : NamespaceId}

theorem lt_of_namespace_used (h : (s.namespaces.get ns).used = true) : ns < maxNamespaces := by
  by_contra hc
  rw [get_of_ge _ (Nat.not_lt.mp hc)] at h
  exact absurd h (by decide)

theorem positionFromOne_some {n : Nat} {α : Type} [Inhabited α] {t : Slots n α} {p : α → Bool}
    {i : Nat} (h : positionFromOne t p = some i) : 1 ≤ i ∧ i < n ∧ p (t.get i) = true := by
  rw [positionFromOne, List.find?_range_eq_some] at h
  simp at h
  exact ⟨h.1.1, h.2.1, h.1.2⟩

theorem freshRamfs_mounts (id : MountId) :
    freshRamfs.mounts.get id
      = if id = rootMount then MountNode.root rootNamespace else MountNode.empty := by
  have hset := get_set (Slots.replicate maxMounts MountNode.empty) (i := rootMount)
    (MountNode.root rootNamespace) (by decide) id
  have hrest : (Slots.replicate maxMounts MountNode.empty).get id = MountNode.empty :=
    get_replicate_default id
  rw [hrest] at hset
  exact hset

theorem freshRamfs_namespaces (ns : NamespaceId) :
    freshRamfs.namespaces.get ns
      = if ns = rootNamespace then { used := true, rootMount := rootMount }
        else NamespaceSlot.empty := by
  have hset := get_set (Slots.replicate maxNamespaces NamespaceSlot.empty)
    (i := rootNamespace) { used := true, rootMount := rootMount } (by decide) ns
  have hrest : (Slots.replicate maxNamespaces NamespaceSlot.empty).get ns
      = NamespaceSlot.empty := get_replicate_default ns
  rw [hrest] at hset
  exact hset

theorem freshRamfs_mountInv : MountInv freshRamfs where
  plain := fun id hused => by
    rw [freshRamfs_mounts]
    by_cases hid : id = rootMount
    · rw [if_pos hid]
      rfl
    · rw [if_neg hid]
      rfl
  top := fun id _ _ => by
    rw [freshRamfs_mounts]
    by_cases hid : id = rootMount
    · rw [if_pos hid]
      rfl
    · rw [if_neg hid]
      rfl
  root_ns := by decide
  ns_root := fun ns hused => by
    by_cases hns : ns = rootNamespace
    · rw [hns]
      decide
    · rw [freshRamfs_namespaces, if_neg hns] at hused
      exact absurd hused (by decide)
  -- The one mount there is has no parent.
  keys := fun id id' p hused _ hp _ _ _ => by
    rw [freshRamfs_mounts] at hused hp
    by_cases hid : id = rootMount
    · rw [if_pos hid] at hp
      exact absurd hp (by simp only [MountNode.root, reduceCtorEq, not_false_eq_true])
    · rw [if_neg hid] at hused
      exact absurd hused (by decide)

variable {index : MountId}

/-- A mount in use is not in a free slot. -/
theorem ne_of_free {s : Vfs} (hfree : (s.mounts.get index).used = false) (id : MountId)
    (hused : (s.mounts.get id).used = true) : id ≠ index := by
  rintro rfl
  simp [hfree] at hused

section Tables

variable {s s' : Vfs} (hinv : MountInv s)

include hinv

variable {node : MountNode}

/-- Writing one mount leaves the others as they are. What is left to show is
    that it fits in with them, and that the namespaces have their roots. -/
theorem setMount_mountInv (hlt : index < maxMounts)
    (hmounts : s'.mounts = s.mounts.set index node)
    (hplain : node.used = true → node.rootInode = node.mountpointInode)
    (htop : node.used = true → node.parent = none → node.mountpointInode = 0)
    (hplace : node.used = true → ∀ id p, (s.mounts.get id).used = true →
      (s.mounts.get id).parent = some p → node.parent = some p → (s.mounts.get id).ns = node.ns →
      (s.mounts.get id).mountpointInode ≠ node.mountpointInode)
    (hroot_ns : s'.namespaces.get rootNamespace = { used := true, rootMount := rootMount })
    (hns_root : ∀ ns, (s'.namespaces.get ns).used = true →
      let root := s'.mounts.get (s'.namespaces.get ns).rootMount
      root.used = true ∧ root.ns = ns ∧ root.parent = none) : MountInv s' := by
  have hget : ∀ id, s'.mounts.get id = if id = index then node else s.mounts.get id := by
    rw [hmounts]
    exact get_set s.mounts node hlt
  refine ⟨?_, ?_, hroot_ns, hns_root, ?_⟩
  · intro id hused
    rw [hget] at hused ⊢
    split_ifs at hused ⊢
    · exact hplain hused
    · exact hinv.plain id hused
  · intro id hused hp
    rw [hget] at hused hp ⊢
    split_ifs at hused hp ⊢
    · exact htop hused hp
    · exact hinv.top id hused hp
  · -- Two mounts in one place are both old, and then one, or both the new one.
    intro id id' p hused hused' hp hp' hsame hmp
    rw [hget] at hused hused' hp hp'
    rw [hget id, hget id'] at hsame hmp
    split_ifs at hused hused' hp hp' hsame hmp with hid hid' hid'
    · rw [hid, hid']
    · exact absurd hmp.symm (hplace hused id' p hused' hp' hp hsame.symm)
    · exact absurd hmp (hplace hused' id p hused hp hp' hsame)
    · exact hinv.keys id id' p hused hused' hp hp' hsame hmp

/-- Placing a mount: the slot was free, so no namespace root moves, and no
    mount sat on that inode under that parent. -/
theorem addMount_mountInv {parent index : MountId} (hlt : index < maxMounts)
    (hfree : (s.mounts.get index).used = false) (hparent : node.parent = some parent)
    (hroot : node.rootInode = node.mountpointInode)
    (hfresh : findMountChild s node.ns parent node.mountpointInode = none)
    (hmounts : s'.mounts = s.mounts.set index node) (hns : s'.namespaces = s.namespaces) :
    MountInv s' := by
  refine setMount_mountInv hinv hlt hmounts (fun _ => hroot) (fun _ hp => ?_)
    (fun _ id p hused hp hp' hn => ?_) (hns ▸ hinv.root_ns) fun ns' hused => ?_
  · rw [hparent] at hp
    exact nomatch hp
  · exact findMountChild_none hfresh id hused hn (hp.trans (hp'.symm.trans hparent))
  · rw [hns] at hused ⊢
    have hold := hinv.ns_root ns' hused
    rw [hmounts, get_set_other _ _ (ne_of_free hfree _ hold.1)]
    exact hold

/-- Clearing a mount that is the root of no namespace left in use. -/
theorem clearMount_mountInv {id : MountId} (hlt : id < maxMounts)
    (hmounts : s'.mounts = s.mounts.set id MountNode.empty)
    (hroot_ns : s'.namespaces.get rootNamespace = { used := true, rootMount := rootMount })
    (hkeep : ∀ ns, (s'.namespaces.get ns).used = true →
      s'.namespaces.get ns = s.namespaces.get ns ∧ (s.namespaces.get ns).rootMount ≠ id) :
    MountInv s' := by
  refine setMount_mountInv hinv hlt hmounts nofun nofun nofun hroot_ns fun ns hused => ?_
  rcases hkeep ns hused with ⟨hsame, hroot⟩
  rw [hsame] at hused ⊢
  rw [hmounts, get_set_other _ _ hroot]
  exact hinv.ns_root ns hused

theorem removeMount_mountInv {id : MountId} (hused : (s.mounts.get id).used = true)
    (hroot : ∃ root, namespaceRoot s (s.mounts.get id).ns = .ok root ∧ root ≠ id)
    (hmounts : s'.mounts = s.mounts.set id MountNode.empty) (hns : s'.namespaces = s.namespaces) :
    MountInv s' := by
  refine clearMount_mountInv hinv (lt_of_mount_used hused) hmounts ?_ (fun ns hns' => ?_)
  · rw [hns]
    exact hinv.root_ns
  rw [hns] at hns' ⊢
  refine ⟨rfl, fun hid => ?_⟩
  -- The root of a namespace belongs to it, so it would be this mount's root.
  rcases hroot with ⟨root, hroot, hne⟩
  have hnode := hinv.ns_root ns hns'
  rw [hid] at hnode
  rw [hnode.2.1] at hroot
  rcases namespaceRoot_ok hroot with ⟨_, rfl⟩
  exact hne hid

theorem removeNamespace_mountInv {root : MountId} (hne : ns ≠ rootNamespace)
    (hroot : namespaceRoot s ns = .ok root)
    (hmounts : s'.mounts = s.mounts.set root MountNode.empty)
    (hns : s'.namespaces = s.namespaces.set ns NamespaceSlot.empty) : MountInv s' := by
  rcases namespaceRoot_ok hroot with ⟨hused, rfl⟩
  have hnode := hinv.ns_root ns hused
  refine clearMount_mountInv hinv (lt_of_mount_used hnode.1) hmounts ?_ (fun ns' hns' => ?_)
  · rw [hns, get_set_other _ _ (fun hc => hne hc.symm)]
    exact hinv.root_ns
  · rw [hns] at hns' ⊢
    by_cases hn : ns' = ns
    · rw [hn, get_set_self _ _ (lt_of_namespace_used hused)] at hns'
      exact absurd hns' (by decide)
    · rw [get_set_other _ _ hn] at hns' ⊢
      refine ⟨rfl, fun hsame => hn ?_⟩
      -- Two namespaces with one root mount would be one namespace.
      have hnode' := hinv.ns_root ns' hns'
      rw [hsame] at hnode'
      exact hnode'.2.1.symm.trans hnode.2.1

theorem addNamespace_mountInv {mount : MountId}
    (hns : positionFromOne s.namespaces (fun slot => !slot.used) = some ns)
    (hmount : positionFromOne s.mounts (fun node => !node.used) = some mount)
    (hmounts : s'.mounts = s.mounts.set mount (MountNode.root ns))
    (hnss : s'.namespaces = s.namespaces.set ns { used := true, rootMount := mount }) :
    MountInv s' := by
  rcases positionFromOne_some hns with ⟨hns1, hnslt, -⟩
  rcases positionFromOne_some hmount with ⟨-, hmlt, hmfree⟩
  rw [Bool.not_eq_true'] at hmfree
  -- The new root has no parent, so it is in nobody's place.
  refine setMount_mountInv hinv hmlt hmounts (fun _ => rfl) (fun _ _ => rfl)
    (fun _ _ _ _ _ => nofun) ?_ fun n hused => ?_
  · -- The search for a free namespace starts after the root one.
    have hne : rootNamespace ≠ ns := Nat.ne_of_lt hns1
    rw [hnss, get_set_other _ _ hne]
    exact hinv.root_ns
  · rw [hnss] at hused ⊢
    rw [hmounts]
    by_cases hn : n = ns
    · rw [hn, get_set_self _ _ hnslt, get_set_self _ _ hmlt]
      exact ⟨rfl, rfl, rfl⟩
    · rw [get_set_other _ _ hn] at hused ⊢
      have hold := hinv.ns_root n hused
      rw [get_set_other _ _ (ne_of_free hmfree _ hold.1)]
      exact hold

end Tables

/-- A mount is placed in a slot that was free. -/
theorem mountSlot_free (h : s.mounts.position (fun node => !node.used) = some index) :
    index < maxMounts ∧ (s.mounts.get index).used = false := by
  rcases position_eq_some.mp h with ⟨hlt, hfree, -⟩
  rw [Bool.not_eq_true'] at hfree
  exact ⟨hlt, hfree⟩

/-- Every change keeps the mount table well formed. -/
theorem change_mountInv {π : Policy} {s' : Vfs} (hinv : MountInv s) (h : Change π s s') :
    MountInv s' := by
  cases h with
  | addMount _ _ _ _ hfresh hindex _ =>
    rcases mountSlot_free hindex with ⟨hlt, hfree⟩
    exact addMount_mountInv hinv hlt hfree rfl rfl hfresh rfl rfl
  | removeMount hused hroot => exact removeMount_mountInv hinv hused hroot rfl rfl
  | addNamespace hns hmount _ => exact addNamespace_mountInv hinv hns hmount rfl rfl
  | removeNamespace hne hroot => exact removeNamespace_mountInv hinv hne hroot rfl rfl
  | hold _ _ => exact mountInv_congr hinv (sameMount_held s _ _ _) rfl
  | release _ _ => exact mountInv_congr hinv (sameMount_released s _ _) rfl
  | fresh _ => exact freshRamfs_mountInv
  | _ => exact mountInv_congr hinv (fun id => SameMount.refl _) rfl

end Vfs

end Norx
