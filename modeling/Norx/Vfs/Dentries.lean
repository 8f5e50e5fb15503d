import Norx.Vfs.Attach
import Norx.Vfs.Edits

/-!
# Dentries and What They Hold

`lookup` gives out a handle on a dentry, a mount and an inode, and counts it
against the mount. The two tables agree in every state: a mount's count is the
number of dentry slots that name it, and a slot in use names a mount in use,
since `unmount` and `destroy_namespace` refuse while the count is not zero.

Nothing is counted against the inode. `unlink` and `remove_dir` look at open
files and at the children of a directory, never at the dentry table, so they
free the inode of a dentry that is still held, and the next node created takes
the number: `freed_under_dentry` is the shortest run that shows it. `KeepsHeld`
is the missing check. In every run that respects it a dentry names the node it
was looked up as for as long as it is held.

## Theorems

* `change_dentryInv`: Every change keeps the two tables in agreement.
* `step_keepsHeld`: A request that respects the check keeps the nodes of the
  dentries held.
* `freed_under_dentry`: The run that frees a held inode.
* `dentries_counted_and_kept`: The counts in every run, and the nodes in runs
  that respect the check.
-/

namespace Norx

namespace Vfs

open Fallible Slots

/-- The slot is in use and names the mount. -/
def DentrySlot.names (id : MountId) (entry : DentrySlot) : Bool :=
  entry.used && entry.dentry.mount == id

/-- How many dentry slots name the mount. -/
def references (s : Vfs) (id : MountId) : Nat := s.dentries.count (DentrySlot.names id)

/-- The counts are right, and dentries name mounts in use. -/
structure DentryInv (s : Vfs) : Prop where
  counted : ∀ id, (s.mounts.get id).used = true →
    (s.mounts.get id).dentryReferences = references s id
  mounted : ∀ slot, (s.dentries.get slot).used = true →
    (s.mounts.get (s.dentries.get slot).dentry.mount).used = true

variable {s : Vfs} {slot : Nat}

theorem names_of_used (hused : (s.dentries.get slot).used = true) :
    (s.dentries.get slot).names (s.dentries.get slot).dentry.mount = true := by
  rw [DentrySlot.names, hused, beq_self_eq_true]
  rfl

theorem lt_of_dentry_used (hused : (s.dentries.get slot).used = true) : slot < maxDentries := by
  by_contra hc
  rw [get_of_ge _ (Nat.not_lt.mp hc)] at hused
  exact absurd hused (by decide)

/-- A mount no slot is counted for is named by none. -/
theorem ne_of_references {id : MountId} (h : references s id = 0)
    (hused : (s.dentries.get slot).used = true) : (s.dentries.get slot).dentry.mount ≠ id := by
  rintro rfl
  have hnot := eq_false_of_count_eq_zero h (lt_of_dentry_used hused)
  rw [names_of_used hused] at hnot
  exact absurd hnot (by decide)

/-- A mount not in use is named by no slot. -/
theorem references_unused (h : DentryInv s) {id : MountId} (hfree : (s.mounts.get id).used = false) :
    references s id = 0 := by
  refine count_eq_zero _ _ (fun slot _ => ?_)
  by_contra hc
  rw [Bool.not_eq_false, DentrySlot.names, Bool.and_eq_true, beq_iff_eq] at hc
  have hused := h.mounted slot hc.1
  rw [hc.2, hfree] at hused
  exact absurd hused (by decide)

variable {s' : Vfs}

theorem dentryInv_congr (h : DentryInv s) (hmounts : s'.mounts = s.mounts)
    (hdentries : s'.dentries = s.dentries) : DentryInv s' := by
  refine ⟨fun id hused => ?_, fun slot hused => ?_⟩
  · rw [hmounts] at hused ⊢
    rw [h.counted id hused, references, references, hdentries]
  · rw [hdentries] at hused ⊢
    rw [hmounts]
    exact h.mounted slot hused

/-- A mount slot nobody names can be written, as long as the new count is
    zero. -/
theorem dentryInv_setMount (h : DentryInv s) {index : MountId} {node : MountNode}
    (hlt : index < maxMounts) (hnone : references s index = 0)
    (hmounts : s'.mounts = s.mounts.set index node) (hdentries : s'.dentries = s.dentries)
    (hzero : node.dentryReferences = 0) : DentryInv s' := by
  refine ⟨fun id hused => ?_, fun slot hused => ?_⟩
  · rw [references, hdentries]
    rw [hmounts, get_set s.mounts node hlt] at hused ⊢
    by_cases hid : id = index
    · rw [if_pos hid, hzero, hid]
      exact hnone.symm
    · rw [if_neg hid] at hused ⊢
      exact h.counted id hused
  · rw [hdentries] at hused ⊢
    rw [hmounts, get_set_other _ _ (ne_of_references hnone hused)]
    exact h.mounted slot hused

/-- Rewriting a dentry slot moves the counts by what it named before and
    after. -/
theorem references_set (s : Vfs) (entry : DentrySlot) (hlt : slot < maxDentries) (id : MountId) :
    (s.dentries.set slot entry).count (DentrySlot.names id)
        + ((s.dentries.get slot).names id).toNat
      = references s id + (entry.names id).toNat :=
  count_set s.dentries _ entry hlt

variable {entry : DentrySlot}

/-- Rewriting a dentry slot and one mount's count with it. -/
theorem dentryInv_recount (h : DentryInv s) {n : Nat} {mount : MountId} (hlt : slot < maxDentries)
    (hdentries : s'.dentries = s.dentries.set slot entry)
    (hmounts : s'.mounts = s.mounts.set mount { s.mounts.get mount with dentryReferences := n })
    (hentry : entry.used = true → (s.mounts.get entry.dentry.mount).used = true)
    (hn : (s.mounts.get mount).used = true → n = s'.dentries.count (DentrySlot.names mount))
    (hother : ∀ id, id ≠ mount → (s.dentries.get slot).names id = entry.names id) :
    DentryInv s' := by
  have hsame : ∀ id, (s'.mounts.get id).used = (s.mounts.get id).used := by
    intro id
    rw [hmounts]
    exact (sameMount_setReferences s mount n id).used
  refine ⟨fun id hused => ?_, fun slot' hused => ?_⟩
  · rw [hsame] at hused
    rw [hmounts]
    by_cases hid : id = mount
    · subst hid
      rw [get_set_self _ _ (lt_of_mount_used hused)]
      exact hn hused
    · rw [get_set_other _ _ hid, h.counted id hused, references, references, hdentries]
      exact (count_set_same _ _ hlt (hother id hid)).symm
  · rw [hsame]
    rw [hdentries, get_set s.dentries entry hlt] at hused ⊢
    by_cases hslot : slot' = slot
    · rw [if_pos hslot] at hused ⊢
      exact hentry hused
    · rw [if_neg hslot] at hused ⊢
      exact h.mounted slot' hused

theorem names_free (hfree : entry.used = false) (id : MountId) : entry.names id = false := by
  rw [DentrySlot.names, hfree, Bool.false_and]

variable {ns : NamespaceId}

/-- Another slot in use, and one more counted. -/
theorem held_dentryInv (hm : MountInv s) (h : DentryInv s) {mount : MountId} {inode : Nat}
    (hresolves : Resolves s ns mount inode)
    (hslot : s.dentries.position (fun entry => !entry.used) = some slot) :
    DentryInv (held s slot mount inode) := by
  rcases position_eq_some.mp hslot with ⟨hlt, hfree, -⟩
  rw [Bool.not_eq_true'] at hfree
  refine dentryInv_recount h hlt rfl rfl (fun _ => (resolves_spec hm hresolves).2.1)
    (fun hused => ?_) (fun id hid => ?_)
  · have hset := references_set s { used := true, dentry := { mount, inode } } hlt mount
    rw [names_free hfree, DentrySlot.names, Bool.true_and, beq_self_eq_true, Bool.toNat_true,
      Bool.toNat_false] at hset
    rw [h.counted mount hused]
    exact hset.symm
  · rw [names_free hfree, DentrySlot.names]
    exact (beq_eq_false_iff_ne.mpr (fun hc => hid hc.symm)).symm

/-- A slot given back, and one less counted. The count is not zero: the slot
    itself is in it. -/
theorem released_dentryInv (h : DentryInv s) (hused : (s.dentries.get slot).used = true) :
    DentryInv (released s slot (s.dentries.get slot).dentry.mount) := by
  have hlt := lt_of_dentry_used hused
  have hempty : ∀ id, DentrySlot.empty.names id = false := names_free rfl
  refine dentryInv_recount h hlt rfl rfl (fun hc => absurd hc (by decide)) (fun hmount => ?_)
    (fun id hid => ?_)
  · have hset := references_set s DentrySlot.empty hlt (s.dentries.get slot).dentry.mount
    rw [names_of_used hused, hempty, Bool.toNat_true, Bool.toNat_false] at hset
    rw [h.counted _ hmount]
    change references s _ - 1 = (s.dentries.set slot DentrySlot.empty).count _
    omega
  · rw [DentrySlot.names, hused]
    exact beq_eq_false_iff_ne.mpr (fun hc => hid hc.symm)

theorem freshRamfs_dentryInv : DentryInv freshRamfs := by
  have hempty : ∀ slot, freshRamfs.dentries.get slot = DentrySlot.empty :=
    fun slot => get_replicate_default slot
  refine ⟨fun id _ => ?_, fun slot hused => ?_⟩
  · have hnone : references freshRamfs id = 0 := by
      refine count_eq_zero _ _ (fun slot _ => ?_)
      rw [hempty]
      exact names_free rfl id
    rw [freshRamfs_mounts]
    by_cases hid : id = rootMount
    · rw [if_pos hid]
      rfl
    · rw [if_neg hid]
      rfl
  · rw [hempty] at hused
    exact absurd hused (by decide)

/-- The root mount of a namespace is among those `destroy_namespace` checks. -/
theorem references_of_idle (hm : MountInv s) (h : DentryInv s)
    (hns : (s.namespaces.get ns).used = true)
    (hidle : s.mounts.any (fun node => node.used && node.ns == ns && node.dentryReferences != 0) =
      false) : references s (s.namespaces.get ns).rootMount = 0 := by
  rcases hm.ns_root ns hns with ⟨hused, hroot, -⟩
  have hnot := any_eq_false.mp hidle _ (lt_of_mount_used hused)
  rw [hused, hroot, beq_self_eq_true, Bool.true_and, Bool.true_and, bne_eq_false_iff_eq] at hnot
  rw [← h.counted _ hused]
  exact hnot

/-- Every change keeps the two tables in agreement: a new mount takes a slot
    nobody names, and a mount goes only when its count is zero. -/
theorem change_dentryInv {π : Policy} (hm : MountInv s) (h : DentryInv s) (hc : Change π s s') :
    DentryInv s' := by
  cases hc with
  | addMount _ _ _ _ _ hindex _ =>
    rcases mountSlot_free hindex with ⟨hlt, hfree⟩
    exact dentryInv_setMount h hlt (references_unused h hfree) rfl rfl rfl
  | @removeMount id hused _ hdentries _ _ _ =>
    rw [h.counted id hused] at hdentries
    exact dentryInv_setMount h (lt_of_mount_used hused) hdentries rfl rfl rfl
  | addNamespace _ hmount _ =>
    rcases positionFromOne_some hmount with ⟨-, hlt, hfree⟩
    rw [Bool.not_eq_true'] at hfree
    exact dentryInv_setMount h hlt (references_unused h hfree) rfl rfl rfl
  | removeNamespace _ hroot hdentries _ _ =>
    rcases namespaceRoot_ok hroot with ⟨hns, rfl⟩
    exact dentryInv_setMount h (lt_of_mount_used (hm.ns_root _ hns).1)
      (references_of_idle hm h hns hdentries) rfl rfl rfl
  | hold hresolves hslot => exact held_dentryInv hm h hresolves hslot
  | release _ hused => exact released_dentryInv h hused
  | fresh _ => exact freshRamfs_dentryInv
  | _ => exact dentryInv_congr h rfl rfl

/-- Whatever the callers ask for. -/
theorem reachable_dentryInv (calls : List Call) :
    DentryInv (run World.step World.start calls).vfs := by
  have hboth := run_vfs_invariant Policy.any (fun s => MountInv s ∧ DentryInv s)
    ⟨freshRamfs_mountInv, freshRamfs_dentryInv⟩
    (fun s s' h hc => ⟨change_mountInv h.1 hc, change_dentryInv h.1 h.2 hc⟩) calls
    (obeys_of_forall _ _ allowed_any World.start calls)
  exact hboth.2

/-! ### The nodes of held dentries -/

/-- The request frees no inode a held dentry names: what is unlinked or removed
    is none of them, and the root file system is not mounted afresh while one
    is held. -/
def KeepsHeld (w : World) : Call → Prop
  | .unlink path => (unlink path w.vfs).1 = .ok () →
      ∀ child, Names w.vfs path child → ∀ handle ∈ w.dentries, handle.dentry.inode ≠ child
  | .removeDir path => (removeDir path w.vfs).1 = .ok () →
      ∀ child, Names w.vfs path child → ∀ handle ∈ w.dentries, handle.dentry.inode ≠ child
  | .mountRamfs => w.vfs.mounted = false → w.dentries = []
  | _ => True

theorem borrow_dentries {α : Type} (w : World) (held : Nat) (x : HandleM α) :
    (w.borrow held x).dentries = w.dentries := by
  rw [World.borrow]
  cases w.files[held]? with
  | none => rfl
  | some handle => rfl

variable {w : World} {handle : DentryHandle}

/-- What a removal leaves of the inode of a held dentry: it failed, or freed
    another one. -/
theorem removal_keepsHeld {x : VfsM Unit} {Q : Unit → Vfs → Prop} {path : Path}
    (hspec : wp x Q (fun _ s' => s' = w.vfs) w.vfs)
    (hedits : Edits { frees := Names w.vfs path, writes := fun _ => False } w.vfs (x w.vfs).2)
    (h : (x w.vfs).1 = .ok () → ∀ child, Names w.vfs path child → ∀ handle ∈ w.dentries,
      handle.dentry.inode ≠ child) (hheld : handle ∈ w.dentries) :
    KeepsNode w.vfs (x w.vfs).2 handle.dentry.inode := by
  rcases hrun : x w.vfs with ⟨e | u, s'⟩
  · rw [wp_error hrun hspec]
    exact keepsNode_refl w.vfs _
  · rw [hrun] at h hedits
    exact edits_keepsNode hedits (fun hnames => h rfl _ hnames handle hheld rfl)

variable {call : Call}

/-- A request that respects the check keeps the nodes of the dentries held. -/
theorem step_keepsHeld (h : KeepsHeld w call) (hheld : handle ∈ w.dentries) :
    KeepsNode w.vfs (w.step call).vfs handle.dentry.inode := by
  rcases step_edits w call with hedits | ⟨rfl, hmounted, -⟩
  · cases call with
    | unlink path => exact removal_keepsHeld (unlink_removes path w.vfs) hedits h hheld
    | removeDir path => exact removal_keepsHeld (removeDir_removes path w.vfs) hedits h hheld
    | _ => exact edits_keepsNode hedits id
  · -- The root file system is not mounted afresh while a dentry is held.
    rw [h hmounted] at hheld
    exact absurd hheld List.not_mem_nil

/-- A dentry held afterwards was held before, or has just been looked up. -/
theorem mem_step_dentries (hheld : handle ∈ (w.step call).dentries) :
    handle ∈ w.dentries ∨ ∃ ns path s', call = .lookupInNamespace ns path ∧
      lookupInNamespace ns path w.vfs = (.ok handle, s') ∧ (w.step call).vfs = s' := by
  cases call with
  | lookupInNamespace ns path =>
    rcases hx : lookupInNamespace ns path w.vfs with ⟨e | handle', s'⟩
    · rw [World.step, hx] at hheld
      exact .inl hheld
    · rw [World.step, hx] at hheld
      rcases List.mem_append.mp hheld with hold | hnew
      · exact .inl hold
      · obtain rfl : handle = handle' := List.mem_singleton.mp hnew
        refine .inr ⟨ns, path, s', rfl, hx, ?_⟩
        rw [World.step, hx]
  | releaseDentry held =>
    rw [World.step] at hheld
    cases hat : w.dentries[held]? with
    | none =>
      rw [hat] at hheld
      exact .inl hheld
    | some released =>
      rw [hat] at hheld
      exact .inl (List.mem_of_mem_eraseIdx hheld)
  | openFile path options =>
    rw [World.step] at hheld
    rcases hx : openFile path options w.vfs with ⟨e | file, s'⟩
    · rw [hx] at hheld
      exact .inl hheld
    · rw [hx] at hheld
      exact .inl hheld
  | close held =>
    rw [World.step] at hheld
    cases hat : w.files[held]? with
    | none =>
      rw [hat] at hheld
      exact .inl hheld
    | some file =>
      rw [hat] at hheld
      exact .inl hheld
  | readHandle held | writeHandle held | seek held => exact .inl (borrow_dentries w held _ ▸ hheld)
  | _ => exact .inl hheld

/-- Every dentry held names an inode in use. -/
def HeldNodes (w : World) : Prop :=
  ∀ handle ∈ w.dentries, (w.vfs.fs.inode handle.dentry.inode).used = true

theorem step_heldNodes (ht : TablesInv w.vfs) (h : HeldNodes w) (hok : KeepsHeld w call) :
    HeldNodes (w.step call) := by
  intro handle hheld
  rcases mem_step_dentries hheld with hold | ⟨ns, path, s', rfl, hx, hs'⟩
  · exact (step_keepsHeld hok hold (h handle hold)).1
  · -- What a lookup arrives at is in the tree, and the lookup leaves the tree alone.
    rcases wp_ok hx (lookupInNamespace_spec ns path w.vfs) with ⟨hresolve, -, hafter⟩
    have hused := resolves_used ht.1 ht.2 (resolveMount_resolves hresolve)
    rw [hs', hafter]
    exact hused

/-- The dentries held after the first `k` requests. -/
def heldAt (calls : List Call) (k : Nat) : List DentryHandle :=
  (run World.step World.start (calls.take k)).dentries

variable {calls : List Call}

theorem heldAt_used (hcalls : Obeys World.step KeepsHeld World.start calls) (k : Nat)
    (hheld : handle ∈ heldAt calls k) :
    ((stateAt calls k).fs.inode handle.dentry.inode).used = true := by
  have hboth := run_invariant World.step KeepsHeld (fun w => TablesInv w.vfs ∧ HeldNodes w)
    (fun w call h hok => ⟨?_, step_heldNodes h.1 h.2 hok⟩) (calls.take k) World.start
    ⟨⟨freshRamfs_mountInv, freshRamfs_treeInv⟩, ?_⟩ (obeys_take _ _ _ _ k hcalls)
  · exact hboth.2 handle hheld
  · exact effects_invariant (P := TablesInv) (fun s s' hs hc => change_tablesInv hs hc)
      (once_effects (step_once Policy.any w call (allowed_any w call))) h.1
  · intro handle hnone
    exact absurd hnone List.not_mem_nil

/-- One more request. -/
theorem heldAt_succ {k : Nat} (hk : k < calls.length)
    (hcalls : Obeys World.step KeepsHeld World.start calls) (hheld : handle ∈ heldAt calls k) :
    KeepsNode (stateAt calls k) (stateAt calls (k + 1)) handle.dentry.inode := by
  rcases run_take_succ _ _ World.start calls k hk hcalls with ⟨call, hok, hstep⟩
  have hkeep := step_keepsHeld hok hheld
  rw [← hstep] at hkeep
  exact hkeep

/-- A dentry that is held all the way names the same node all the way. -/
theorem heldAt_kind (hcalls : Obeys World.step KeepsHeld World.start calls) {j n : Nat}
    (hn : n ≤ calls.length) (hheld : ∀ k, j ≤ k → k ≤ n → handle ∈ heldAt calls k) :
    ∀ k, j ≤ k → k ≤ n → ((stateAt calls k).fs.inode handle.dentry.inode).kind
      = ((stateAt calls j).fs.inode handle.dentry.inode).kind := by
  intro k hjk
  induction k, hjk using Nat.le_induction with
  | base =>
    intro _
    rfl
  | succ k hjk ih =>
    intro hkn
    have hk := hheld k hjk (by omega)
    rw [← ih (by omega)]
    exact (heldAt_succ (by omega) hcalls hk (heldAt_used hcalls k hk)).2

/-- Without the check a held dentry loses its node: after `mkdir /a`, a lookup
    of `/a` and `remove_dir /a` the dentry is held and its inode is free, and
    `mkdir /b` then takes the inode. The same with a file and `unlink`. -/
theorem freed_under_dentry :
    let handle : DentryHandle := { slot := 0, dentry := { mount := 0, inode := 1 } }
    let calls := [Call.mkdir [47, 97], Call.lookupInNamespace rootNamespace [47, 97],
      Call.removeDir [47, 97], Call.mkdir [47, 98]]
    let calls' := [Call.writePath [47, 97] [], Call.lookupInNamespace rootNamespace [47, 97],
      Call.unlink [47, 97], Call.mkdir [47, 98]]
    (∀ k, 2 ≤ k → k ≤ 4 → heldAt calls k = [handle] ∧ heldAt calls' k = [handle]) ∧
    ((stateAt calls 2).fs.inode 1).used = true ∧ ((stateAt calls 3).fs.inode 1).used = false ∧
    resolveMount (stateAt calls 4) [47, 98] rootNamespace = .ok (0, 1) ∧
    ((stateAt calls' 2).fs.inode 1).kind = .regular ∧
    ((stateAt calls' 3).fs.inode 1).used = false ∧
    ((stateAt calls' 4).fs.inode 1).kind = .directory := by
  decide +kernel

/-- In every run a mount's count is the number of dentry slots that name it,
    and a slot in use names a mount in use. In the runs that free no inode of a
    dentry that is held, the inode stays in use, as the node it was, from the
    lookup for as long as the dentry is held. -/
theorem dentries_counted_and_kept (calls : List Call) :
    let s := (run World.step World.start calls).vfs
    (∀ id, (s.mounts.get id).used = true → (s.mounts.get id).dentryReferences
      = s.dentries.count (fun entry => entry.used && entry.dentry.mount == id)) ∧
    (∀ slot, (s.dentries.get slot).used = true →
      (s.mounts.get (s.dentries.get slot).dentry.mount).used = true) ∧
    (Obeys World.step KeepsHeld World.start calls →
      ∀ (handle : DentryHandle) (j n : Nat), n ≤ calls.length →
        (∀ k, j ≤ k → k ≤ n → handle ∈ heldAt calls k) →
        ∀ k, j ≤ k → k ≤ n →
          ((stateAt calls k).fs.inode handle.dentry.inode).used = true ∧
          ((stateAt calls k).fs.inode handle.dentry.inode).kind
            = ((stateAt calls j).fs.inode handle.dentry.inode).kind) := by
  intro s
  have hinv := reachable_dentryInv calls
  refine ⟨hinv.counted, hinv.mounted, fun hcalls handle j n hn hheld k hjk hkn => ⟨?_, ?_⟩⟩
  · exact heldAt_used hcalls k (hheld k hjk hkn)
  · exact heldAt_kind hcalls hn hheld k hjk hkn

/-- A directory removed while a dentry for another one is held. -/
theorem dentries_counted_and_kept_beside :
    let calls := [Call.mkdir [47, 97], Call.lookupInNamespace rootNamespace [47, 97],
      Call.mkdir [47, 98], Call.removeDir [47, 98]]
    ((stateAt calls 3).fs.inode 2).used = true ∧ ((stateAt calls 4).fs.inode 2).used = false ∧
    ((stateAt calls 4).fs.inode 1).used = true ∧
      ((stateAt calls 4).fs.inode 1).kind = ((stateAt calls 2).fs.inode 1).kind := by
  intro calls
  have hfreed : ((stateAt calls 3).fs.inode 2).used = true ∧
      ((stateAt calls 4).fs.inode 2).used = false := by decide +kernel
  -- `/b` leads to inode 2, and the dentry held is of inode 1.
  have hremove : KeepsHeld (run World.step World.start (calls.take 3)) (.removeDir [47, 98]) := by
    rintro - child ⟨mount, parent, name, hparent, hchild⟩ handle hheld rfl
    have hname : parentAndNameMount (run World.step World.start (calls.take 3)).vfs [47, 98]
        rootNamespace = .ok (0, 0, ⟨[98], by decide⟩) := by decide +kernel
    rw [hname] at hparent
    cases hparent
    have hlist : (run World.step World.start (calls.take 3)).dentries
        = [{ slot := 0, dentry := { mount := 0, inode := 1 } }] := by decide +kernel
    rw [hlist, List.mem_singleton] at hheld
    rw [hheld] at hchild
    exact absurd hchild (by decide +kernel)
  refine ⟨hfreed.1, hfreed.2, (dentries_counted_and_kept calls).2.2
    ⟨trivial, trivial, trivial, hremove, trivial⟩ { slot := 0, dentry := { mount := 0, inode := 1 } }
    2 4 (by decide) ?_ 4 (by decide) (by decide)⟩
  decide +kernel

end Vfs

end Norx
