import Norx.Vfs.Tree

/-!
# Mounts and the Directories They Sit On

A mount names the directory it was placed on by inode number, and inode numbers
are recycled. `unlink` cannot free such a directory, since it takes regular
files only, and `remove_dir` checks that the directory is empty but not that
nothing is mounted on it. So a mount can outlive its directory, and the next
inode created under that number becomes its mountpoint: `detached_mount` is the
shortest run that shows it.

`keepMountpoints` is the missing check. In every run whose removals respect it
a mount stays on its directory for as long as it exists, and a path that
arrives in it has passed through that directory on the way.

## Theorems

* `change_attached`: Every change the policy allows keeps mounts attached.
* `once_sameMount`: A request does not exchange a mount for another.
* `resolveFrom_enters`: A walk into a mount passes through its mountpoint.
* `detached_mount`: The run that detaches a mount.
* `mounts_stay_attached`: The histories of mounts in runs that keep
  mountpoints.
-/

namespace Norx

namespace Vfs

/-- No directory is removed from under a mount in use. -/
def keepMountpoints : Policy :=
  { Policy.any with removeDirectory := fun s inode =>
      ∀ id, (s.mounts.get id).used = true → (s.mounts.get id).mountpointInode ≠ inode }

/-- Every mount in use sits on a directory in use. -/
def Attached (s : Vfs) : Prop :=
  ∀ id, (s.mounts.get id).used = true →
    (tree s.fs).node (s.mounts.get id).mountpointInode = true ∧
    (tree s.fs).dir (s.mounts.get id).mountpointInode = true

variable {s s' : Vfs}

/-- The invariant looks at the mountpoints of the mounts in use only. -/
theorem attached_congr (h : Attached s)
    (hmounts : ∀ id, (s'.mounts.get id).used = true → (s.mounts.get id).used = true ∧ (s'.mounts.get
      id).mountpointInode = (s.mounts.get id).mountpointInode)
    (htree : ∀ id, (s.mounts.get id).used = true → (tree s'.fs).node (s.mounts.get
      id).mountpointInode = (tree s.fs).node (s.mounts.get id).mountpointInode ∧ (tree s'.fs).dir
      (s.mounts.get id).mountpointInode = (tree s.fs).dir (s.mounts.get id).mountpointInode) :
    Attached s' := by
  intro id hused
  rcases hmounts id hused with ⟨hold, hmp⟩
  rw [hmp, (htree id hold).1, (htree id hold).2]
  exact h id hold

theorem attached_sameMount (h : Attached s)
    (hmounts : ∀ id, SameMount (s'.mounts.get id) (s.mounts.get id)) (hfs : s'.fs = s.fs) :
    Attached s' := by
  refine attached_congr h (fun id hused => ?_) (fun id _ => by rw [hfs]; exact ⟨rfl, rfl⟩)
  rw [(hmounts id).used] at hused
  exact ⟨hused, (hmounts id).mountpointInode⟩

variable {index : MountId}

/-- A new mount on a directory in use. -/
theorem attached_setMount (h : Attached s) {node : MountNode} (hlt : index < maxMounts)
    (hmounts : s'.mounts = s.mounts.set index node) (hfs : s'.fs = s.fs)
    (hnode : (tree s.fs).node node.mountpointInode = true)
    (hdir : (tree s.fs).dir node.mountpointInode = true) : Attached s' := by
  intro id hused
  rw [hmounts, Slots.get_set s.mounts node hlt] at hused ⊢
  rw [hfs]
  by_cases hid : id = index
  · rw [if_pos hid]
    exact ⟨hnode, hdir⟩
  · rw [if_neg hid] at hused ⊢
    exact h id hused

/-- A mount cleared. -/
theorem attached_clearMount (h : Attached s) (hlt : index < maxMounts)
    (hmounts : s'.mounts = s.mounts.set index MountNode.empty) (hfs : s'.fs = s.fs) :
    Attached s' := by
  refine attached_congr h (fun id hused => ?_) (fun id _ => by rw [hfs]; exact ⟨rfl, rfl⟩)
  rw [hmounts, Slots.get_set s.mounts _ hlt] at hused ⊢
  by_cases hid : id = index
  · rw [if_pos hid] at hused
    exact absurd hused (by decide)
  · rw [if_neg hid] at hused ⊢
    exact ⟨hused, rfl⟩

theorem freshRamfs_attached : Attached freshRamfs := by
  intro id hused
  have htop : (freshRamfs.mounts.get id).mountpointInode = 0 := by
    rw [freshRamfs_mounts]
    by_cases hid : id = rootMount
    · rw [if_pos hid]
      rfl
    · rw [if_neg hid]
      rfl
  rw [htop]
  exact ⟨freshRamfs_treeInv.root_node, freshRamfs_treeInv.root_dir⟩

/-- Every change the policy allows keeps mounts attached. Only three changes
    touch what the invariant is about: creating takes an inode that was free,
    removing a file frees one that is no directory, and removing a directory is
    what the policy restricts. -/
theorem change_attached (ht : TablesInv s) (h : Attached s) (hc : Change keepMountpoints s s') :
    Attached s' := by
  rcases ht with ⟨hm, ht⟩
  have hsame : ∀ id, (s.mounts.get id).used = true → (s.mounts.get id).used = true ∧
      (s.mounts.get id).mountpointInode = (s.mounts.get id).mountpointInode :=
    fun id hused => ⟨hused, rfl⟩
  rcases change_kept ⟨hm, ht⟩ hc with ⟨-, rfl⟩ | hkept
  · exact freshRamfs_attached
  have hkept : ∀ id, (s.mounts.get id).used = true → _ := fun id hused => by
    refine hkept _ (h id hused).1 fun hremoved => ?_
    rcases hremoved with ⟨hreg, -⟩ | ⟨-, hallowed⟩
    · exact absurd ((kind_of_dir (h id hused).2).symm.trans hreg) (by decide)
    · exact hallowed id hused rfl
  cases hc with
  | create | remove | renameHere | move | chmod | write => exact attached_congr h hsame hkept
  | addMount hresolves _ hdir _ _ hindex _ =>
    exact attached_setMount h (mountSlot_free hindex).1 rfl rfl (resolves_used hm ht hresolves)
      (dir_of_kind hdir)
  | removeMount hused _ _ _ _ _ => exact attached_clearMount h (lt_of_mount_used hused) rfl rfl
  | addNamespace _ hmount _ =>
    exact attached_setMount h (positionFromOne_some hmount).2.1 rfl rfl ht.root_node ht.root_dir
  | removeNamespace _ hroot _ _ _ =>
    rcases namespaceRoot_ok hroot with ⟨hns, rfl⟩
    exact attached_clearMount h (lt_of_mount_used (hm.ns_root _ hns).1) rfl rfl
  | hold _ _ => exact attached_sameMount h (sameMount_held s _ _ _) rfl
  | release _ _ => exact attached_sameMount h (sameMount_released s _ _) rfl
  | fresh _ => exact freshRamfs_attached
  | _ => exact h

/-! ### A mount over time -/

theorem SameMount.trans {a b c : MountNode} (h : SameMount a b) (h' : SameMount b c) :
    SameMount a c :=
  ⟨h.used.trans h'.used, h.ns.trans h'.ns, h.parent.trans h'.parent,
    h.mountpointInode.trans h'.mountpointInode, h.rootInode.trans h'.rootInode⟩

variable {id : MountId}

theorem sameMount_set (s : Vfs) (node : MountNode) (hne : id ≠ index) :
    SameMount ((s.mounts.set index node).get id) (s.mounts.get id) := by
  rw [Slots.get_set_other _ _ hne]
  exact SameMount.refl _

variable {π : Policy}

/-- A mount in use before and after a change is the same mount: a new one goes
    to a free slot. -/
theorem change_sameMount (hm : MountInv s) (hc : Change π s s')
    (hused : (s.mounts.get id).used = true) (hused' : (s'.mounts.get id).used = true) :
    SameMount (s'.mounts.get id) (s.mounts.get id) := by
  -- The slot written was free before or is cleared, and `id` is neither.
  have hnew : ∀ {index}, (s.mounts.get index).used = false → id ≠ index :=
    fun hfree => ne_of_free hfree id hused
  have hcleared : ∀ {index}, index < maxMounts →
      ((s.mounts.set index MountNode.empty).get id).used = true → id ≠ index := by
    rintro index hlt hget rfl
    rw [Slots.get_set_self _ _ hlt] at hget
    exact absurd hget (by decide)
  cases hc with
  | addMount _ _ _ _ _ hindex _ => exact sameMount_set s _ (hnew (mountSlot_free hindex).2)
  | removeMount hold _ _ _ _ _ => exact sameMount_set s _ (hcleared (lt_of_mount_used hold) hused')
  | addNamespace _ hmount _ =>
    refine sameMount_set s _ (hnew ?_)
    rw [← Bool.not_eq_true']
    exact (positionFromOne_some hmount).2.2
  | removeNamespace _ hroot _ _ _ =>
    rcases namespaceRoot_ok hroot with ⟨hns, rfl⟩
    exact sameMount_set s _ (hcleared (lt_of_mount_used (hm.ns_root _ hns).1) hused')
  | hold _ _ => exact sameMount_held s _ _ _ id
  | release _ _ => exact sameMount_released s _ _ id
  | fresh _ =>
    -- Only mount zero is in use in a fresh table, and it was the same before.
    have hid : id = rootMount := by
      by_contra hne
      rw [freshRamfs_mounts, if_neg hne] at hused'
      exact absurd hused' (by decide)
    subst hid
    have hroot := hm.ns_root rootNamespace (by rw [hm.root_ns])
    rw [hm.root_ns] at hroot
    have hmp := hm.top rootMount hroot.1 hroot.2.2
    have hri := hm.plain rootMount hroot.1
    rw [hmp] at hri
    exact ⟨hroot.1.symm, hroot.2.1.symm, hroot.2.2.symm, hmp.symm, hri.symm⟩
  | _ => exact SameMount.refl _

theorem quiet_sameMount (heff : Effects π.quiet s s') (id : MountId) :
    SameMount (s'.mounts.get id) (s.mounts.get id) := by
  induction heff with
  | refl => exact SameMount.refl _
  | tail _ hone ih =>
    refine SameMount.trans ?_ ih
    cases hone with
    | addMount _ _ _ _ _ _ hallowed | removeMount _ _ _ _ _ hallowed | addNamespace _ _ hallowed
    | removeNamespace _ _ _ _ hallowed | fresh hallowed => exact hallowed.elim
    | hold _ _ => exact sameMount_held _ _ _ _ id
    | release _ _ => exact sameMount_released _ _ _ id
    | _ => exact SameMount.refl _

/-- A request does not exchange a mount for another. -/
theorem once_sameMount (hm : MountInv s) (h : Once π s s') (hused : (s.mounts.get id).used = true)
    (hused' : (s'.mounts.get id).used = true) : SameMount (s'.mounts.get id) (s.mounts.get id) := by
  rcases h with rfl | hone | hquiet
  · exact SameMount.refl _
  · exact change_sameMount hm hone hused hused'
  · exact quiet_sameMount hquiet id

variable {ns : NamespaceId}

/-- A walk that ends in a mount began there or passed through its
    mountpoint. -/
theorem resolveFrom_enters (hm : MountInv s) {d : Nat} :
    ∀ (components : List Name) (here : MountId × Nat),
      resolveFrom s ns components here = .ok (id, d) →
      here.1 = id ∨ ∃ before after, components = before ++ after ∧
        resolveFrom s ns before here = .ok (id, (s.mounts.get id).mountpointInode) := by
  intro components
  induction components with
  | nil =>
    intro here h
    rw [Except.ok.inj h]
    exact .inl rfl
  | cons component rest ih =>
    intro here h
    rcases resolveFrom_cons_ok h with ⟨next, hstep, hrest⟩
    rcases ih next hrest with hid | ⟨before, after, hsplit, hbefore⟩
    · -- Either this component entered the mount, or the walk was in it already.
      have hmount := (resolveStep_ok hm hstep).2.2
      cases hfind : findMountChild s ns here.1 next.2 with
      | none =>
        rw [hfind] at hmount
        exact .inl (hmount.symm.trans hid)
      | some child =>
        rw [hfind, Option.getD_some, hid] at hmount
        rw [← hmount] at hfind
        have hmp := (findMountChild_some hfind).2.2.2.2
        refine .inr ⟨[component], rest, rfl, ?_⟩
        simp only [resolveFrom, hstep]
        rw [hmp, ← hid]
    · refine .inr ⟨component :: before, after, ?_, ?_⟩
      · rw [hsplit, List.cons_append]
      · rw [resolveFrom, hstep]
        exact hbefore

/-- A path that resolves into a mount passes through its mountpoint. -/
theorem resolveMount_enters (hm : MountInv s) {path : Path} {d : Nat}
    (h : resolveMount s path ns = .ok (id, d)) :
    ∃ start before after, namespaceRoot s ns = .ok start ∧
      parsePath path = .ok (before ++ after) ∧
      resolveFrom s ns before (start, 0) = .ok (id, (s.mounts.get id).mountpointInode) ∧
      resolveFrom s ns (before ++ after) (start, 0) = .ok (id, d) := by
  rcases resolveMount_ok h with ⟨components, start, hparse, hroot, hwalk⟩
  rcases resolveFrom_enters hm components (start, 0) hwalk with hid | ⟨before, after, rfl, hbefore⟩
  · -- The walk began in the mount: it is the namespace's root, placed on the root inode.
    rcases namespaceRoot_ok hroot with ⟨hns, rfl⟩
    have hstart := hm.ns_root ns hns
    have hmp := hm.top _ hstart.1 hstart.2.2
    refine ⟨_, [], components, hroot, hparse, ?_, hwalk⟩
    rw [← hid, hmp, resolveFrom]
  · exact ⟨start, before, after, hroot, hparse, hbefore, hwalk⟩

/-! ### Runs -/

/-- The file system after the first `k` requests. -/
def stateAt (calls : List Call) (k : Nat) : Vfs :=
  (run World.step World.start (calls.take k)).vfs

theorem stateAt_tablesInv (calls : List Call) (k : Nat) : TablesInv (stateAt calls k) :=
  reachable_tablesInv (calls.take k)

variable {calls : List Call}

/-- One more request. -/
theorem stateAt_succ {k : Nat} (hk : k < calls.length)
    (hcalls : Obeys World.step (Allowed π) World.start calls) :
    Once π (stateAt calls k) (stateAt calls (k + 1)) := by
  rcases run_take_succ _ _ World.start calls k hk hcalls with ⟨call, hallowed, hstep⟩
  have honce := step_once π _ call hallowed
  rw [← hstep] at honce
  exact honce

/-- A mount that stays in use from one point of a run to another is the same
    mount all the way. -/
theorem stateAt_sameMount (hcalls : Obeys World.step (Allowed π) World.start calls) {j n : Nat}
    (hn : n ≤ calls.length)
    (hused : ∀ k, j ≤ k → k ≤ n → ((stateAt calls k).mounts.get id).used = true) :
    ∀ k, j ≤ k → k ≤ n →
      SameMount ((stateAt calls k).mounts.get id) ((stateAt calls j).mounts.get id) := by
  intro k hjk
  induction k, hjk using Nat.le_induction with
  | base =>
    intro _
    exact SameMount.refl _
  | succ k hjk ih =>
    intro hkn
    have hk := ih (by omega)
    refine SameMount.trans ?_ hk
    exact once_sameMount (stateAt_tablesInv calls k).1 (stateAt_succ (by omega) hcalls)
      (hused k hjk (by omega)) (hused (k + 1) (by omega) hkn)

theorem stateAt_attached (hcalls : Obeys World.step (Allowed keepMountpoints) World.start calls)
    (k : Nat) : Attached (stateAt calls k) := by
  have hboth := run_vfs_invariant keepMountpoints (fun s => TablesInv s ∧ Attached s)
    ⟨⟨freshRamfs_mountInv, freshRamfs_treeInv⟩, freshRamfs_attached⟩
    (fun s s' h hc => ⟨change_tablesInv h.1 hc, change_attached h.1 h.2 hc⟩) (calls.take k)
    (obeys_take _ _ _ _ k hcalls)
  exact hboth.2

/-- Without the check a mount loses its directory: after `mkdir /a`, a mount on
    `/a` and `remove_dir /a` the mount is in use and its inode is not, and once
    `mkdir /b` has taken that inode the path `/b` leads into the mount. -/
theorem detached_mount :
    let calls := [Call.mkdir [47, 97],
      Call.mountInNamespace rootNamespace .ramfs [47, 97] MountFlags.defaults .private_,
      Call.removeDir [47, 97], Call.mkdir [47, 98]]
    ((stateAt calls 3).mounts.get 1).used = true ∧
    ((stateAt calls 3).fs.inode ((stateAt calls 3).mounts.get 1).mountpointInode).used = false ∧
    ((stateAt calls 4).mounts.get 1).used = true ∧
    resolveMount (stateAt calls 4) [47, 98] rootNamespace = .ok (1, 1) := by
  decide +kernel

/-- In every run that removes no directory from under a mount, a mount that
    exists from one point to another has sat on the same directory all the
    time, and that directory has been in use all the time. A path that leads
    into the mount at the end passes through it, and goes on below it if the
    inode it names was free at any time since: no directory created later is
    taken for the mountpoint. -/
theorem mounts_stay_attached (calls : List Call)
    (hcalls : Obeys World.step (Allowed keepMountpoints) World.start calls) (id : MountId)
    (j n : Nat) (hjn : j ≤ n) (hn : n ≤ calls.length)
    (hused : ∀ k, j ≤ k → k ≤ n → ((stateAt calls k).mounts.get id).used = true) :
    let mountpoint := ((stateAt calls j).mounts.get id).mountpointInode
    (∀ k, j ≤ k → k ≤ n →
      ((stateAt calls k).mounts.get id).mountpointInode = mountpoint ∧
      ((stateAt calls k).mounts.get id).rootInode = mountpoint ∧
      ((stateAt calls k).fs.inode mountpoint).used = true ∧
      ((stateAt calls k).fs.inode mountpoint).kind = .directory) ∧
    (∀ ns path d, resolveMount (stateAt calls n) path ns = .ok (id, d) →
      ∃ start before after, namespaceRoot (stateAt calls n) ns = .ok start ∧
        parsePath path = .ok (before ++ after) ∧
        resolveFrom (stateAt calls n) ns before (start, 0) = .ok (id, mountpoint) ∧
        ((∃ k, j ≤ k ∧ k ≤ n ∧ ((stateAt calls k).fs.inode d).used = false) → after ≠ [])) := by
  intro mountpoint
  have hpoint : ∀ k, j ≤ k → k ≤ n →
      ((stateAt calls k).mounts.get id).mountpointInode = mountpoint :=
    fun k hjk hkn => (stateAt_sameMount hcalls hn hused k hjk hkn).mountpointInode
  have hnode : ∀ k, j ≤ k → k ≤ n → ((stateAt calls k).fs.inode mountpoint).used = true ∧
      ((stateAt calls k).fs.inode mountpoint).kind = .directory := by
    intro k hjk hkn
    have hat := stateAt_attached hcalls k id (hused k hjk hkn)
    rw [hpoint k hjk hkn] at hat
    exact ⟨hat.1, kind_of_dir hat.2⟩
  refine ⟨?_, ?_⟩
  · intro k hjk hkn
    have hplain := (stateAt_tablesInv calls k).1.plain id (hused k hjk hkn)
    rw [hpoint k hjk hkn] at hplain
    exact ⟨hpoint k hjk hkn, hplain, hnode k hjk hkn⟩
  · intro ns path d hresolve
    rcases resolveMount_enters (stateAt_tablesInv calls n).1 hresolve with
      ⟨start, before, after, hroot, hparse, hbefore, hall⟩
    rw [hpoint n hjn le_rfl] at hbefore
    refine ⟨start, before, after, hroot, hparse, hbefore, ?_⟩
    rintro ⟨k, hjk, hkn, hfree⟩ rfl
    -- The path would end at the mountpoint, which was never free.
    rw [List.append_nil, hbefore] at hall
    have hd : mountpoint = d := (Prod.mk.inj (Except.ok.inj hall)).2
    rw [← hd, (hnode k hjk hkn).1] at hfree
    exact absurd hfree (by decide)

/-- A run with a mount on `/a` and a directory created inside it later. -/
theorem mounts_stay_attached_nested :
    let calls := [Call.mkdir [47, 97],
      Call.mountInNamespace rootNamespace .ramfs [47, 97] MountFlags.defaults .private_,
      Call.mkdir [47, 97, 47, 98]]
    ((stateAt calls 3).fs.inode ((stateAt calls 2).mounts.get 1).mountpointInode).used = true := by
  intro calls
  refine ((mounts_stay_attached calls ⟨trivial, trivial, trivial, trivial⟩ 1 2 3 (by omega)
    (by decide) (fun k hjk hkn => ?_)).1 3 (by omega) (by omega)).2.2.1
  obtain rfl | rfl : k = 2 ∨ k = 3 := by omega
  · decide +kernel
  · decide +kernel

end Vfs

end Norx
