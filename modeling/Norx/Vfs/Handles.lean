import Norx.Vfs.Tree

/-!
# Open Handles

What a caller holds and what the handle table says about it. The table is kept
sound by checks spread over several operations: `unlink` refuses a file with an
open handle, `unmount_mount` and `destroy_namespace` refuse mounts with one,
and directories, which `remove_dir` takes without asking, are never open. Those
are facts about the tables, and `SlotInv` is preserved by every change.

A handle held by a caller matches a slot in use that no other held handle
matches. That is a fact about callers, and `HeldInv` is preserved by every
request: the requests that touch slots are `open`, which takes a free one, and
`close`, which gives back the one of the handle it consumes.

Mounting the root file system afresh clears the handle table under the callers,
so the runs here do not.

## Theorems

* `change_slotInv`: Every change keeps the table sound.
* `step_heldInv`: Every request keeps the held handles sound.
* `open_handles_sound`: Every held handle in every run.
-/

namespace Norx

namespace Vfs

open Fallible Slots

/-- The root file system is not mounted again. -/
def noRemount : Policy := { Policy.any with remount := False }

/-- The handle table agrees with the tree and the mounts: the count is right,
    a slot in use is of a regular file in use through a mount in use, and no
    file outgrows its buffer. -/
structure SlotInv (s : Vfs) : Prop where
  count : s.fs.openCount = s.fs.handles.count (fun handle => handle.used)
  file : ∀ i, (s.fs.handles.get i).used = true →
    (tree s.fs).node (s.fs.handles.get i).inode = true ∧
    (tree s.fs).dir (s.fs.handles.get i).inode = false ∧
    (s.mounts.get (s.fs.handles.get i).mount).used = true
  size : ∀ i, (s.fs.inode i).size ≤ fileMax

variable {s : Vfs}

theorem lt_of_handle_used {i : Nat} (h : (s.fs.handles.get i).used = true) :
    i < maxOpenHandles := by
  by_contra hc
  rw [get_of_ge _ (Nat.not_lt.mp hc)] at h
  exact absurd h (by decide)

variable {s' : Vfs}

/-- A change that does not touch the handle table. -/
theorem slotInv_congr (h : SlotInv s) (hcount : s'.fs.openCount = s.fs.openCount)
    (hhandles : s'.fs.handles = s.fs.handles)
    (htree : ∀ i, (s.fs.handles.get i).used = true → (tree s'.fs).node (s.fs.handles.get i).inode =
      (tree s.fs).node (s.fs.handles.get i).inode ∧ (tree s'.fs).dir (s.fs.handles.get i).inode =
      (tree s.fs).dir (s.fs.handles.get i).inode)
    (hmounts : ∀ i, (s.fs.handles.get i).used = true → (s'.mounts.get (s.fs.handles.get
      i).mount).used = (s.mounts.get (s.fs.handles.get i).mount).used)
    (hsize : ∀ i, (s'.fs.inode i).size ≤ fileMax) : SlotInv s' where
  count := by
    rw [hcount, hhandles]
    exact h.count
  file := fun i hused => by
    rw [hhandles] at hused ⊢
    rw [(htree i hused).1, (htree i hused).2, hmounts i hused]
    exact h.file i hused
  size := hsize

/-! ### Sizes -/

theorem size_setChild (fs : FileSystem) (d k : Nat) (child : Child) (i : Nat) :
    ((fs.setChild d k child).inode i).size = (fs.inode i).size := by
  rcases setChild_keeps fs d k child i with ⟨children, hkeep⟩
  rw [hkeep]

theorem size_setInode {fs : FileSystem} (h : ∀ i, (fs.inode i).size ≤ fileMax) (j : Nat)
    {inode : Inode} (hinode : inode.size ≤ fileMax) (i : Nat) :
    ((fs.setInode j inode).inode i).size ≤ fileMax := by
  by_cases hi : i = j
  · by_cases hj : j < maxInodes
    · rw [hi, inode_setInode_self fs inode hj]
      exact hinode
    · rw [hi, FileSystem.inode, get_of_ge _ (Nat.not_lt.mp hj)]
      exact Nat.zero_le _
  · rw [inode_setInode_other fs inode hi]
    exact h i

section Changes

variable {s : Vfs} (h : SlotInv s)

include h

theorem size_created (parent inode slot : Nat) (name : Name) (kind : NodeType) (mode : UInt16)
    (i : Nat) : ((created s parent inode slot name kind mode).fs.inode i).size ≤ fileMax := by
  change (((s.fs.setInode inode (Inode.new kind parent mode)).setChild parent slot _).inode i).size
    ≤ fileMax
  rw [size_setChild]
  exact size_setInode h.size inode (Nat.zero_le _) i

theorem size_removed (parent slot inode : Nat) (i : Nat) :
    ((removed s parent slot inode).fs.inode i).size ≤ fileMax := by
  refine size_setInode (fun j => ?_) inode (Nat.zero_le _) i
  rw [size_setChild]
  exact h.size j

theorem size_moved (oldParent oldSlot newParent newSlot inode : Nat) (name : Name) (i : Nat) :
    ((moved s oldParent oldSlot newParent newSlot inode name).fs.inode i).size ≤ fileMax := by
  have hrelinked : ∀ j, ((relinked s.fs oldParent oldSlot newParent newSlot inode name).inode
      j).size ≤ fileMax := by
    intro j
    rw [relinked, size_setChild, size_setChild]
    exact h.size j
  refine size_setInode hrelinked inode ?_ i
  exact hrelinked inode

/-- Writing a handle slot keeps the others right, and its own if it is not in
    use or of a regular file in use through a mount in use. -/
theorem setHandle_file {slot : Nat} {handle : HandleSlot} (hlt : slot < maxOpenHandles)
    (hhandle : handle.used = true → (tree s.fs).node handle.inode = true ∧
      (tree s.fs).dir handle.inode = false ∧ (s.mounts.get handle.mount).used = true)
    (i : Nat) (hused : ((s.fs.handles.set slot handle).get i).used = true) :
    (tree s.fs).node ((s.fs.handles.set slot handle).get i).inode = true ∧
      (tree s.fs).dir ((s.fs.handles.set slot handle).get i).inode = false ∧
      (s.mounts.get ((s.fs.handles.set slot handle).get i).mount).used = true := by
  rw [get_set _ _ hlt] at hused ⊢
  by_cases hi : i = slot
  · rw [if_pos hi] at hused ⊢
    exact hhandle hused
  · rw [if_neg hi] at hused ⊢
    exact h.file i hused

/-- A slot is taken for a regular file in use. -/
theorem opened_slotInv {slot inode : Nat} {mount : MountId}
    (hslot : s.fs.handles.position (fun handle => !handle.used) = some slot)
    (hnode : (tree s.fs).node inode = true) (hfile : (tree s.fs).dir inode = false)
    (hmount : (s.mounts.get mount).used = true) : SlotInv (opened s slot mount inode) := by
  rcases position_eq_some.mp hslot with ⟨hlt, hfree, -⟩
  rw [Bool.not_eq_true'] at hfree
  refine ⟨?_, setHandle_file h hlt (fun _ => ⟨hnode, hfile, hmount⟩), h.size⟩
  change s.fs.openCount + 1 = (s.fs.handles.set slot _).count _
  rw [count_set_true _ _ hlt hfree rfl, h.count]

theorem closed_slotInv {slot : Nat} (hlt : slot < maxOpenHandles)
    (hused : (s.fs.handles.get slot).used = true) : SlotInv (closed s slot) := by
  refine ⟨?_, setHandle_file h hlt (fun hempty => absurd hempty (by decide)), h.size⟩
  change s.fs.openCount - 1 = (s.fs.handles.set slot HandleSlot.empty).count _
  have hcount := count_set_false s.fs.handles (fun handle => handle.used) hlt hused
    (a := HandleSlot.empty) rfl
  -- The slot in use is counted, so the saturating subtraction loses nothing.
  rw [h.count]
  omega

/-- A mount slot is written that no open handle goes through. -/
theorem setMount_slotInv {id : MountId} {node : MountNode} (hfs : s'.fs = s.fs)
    (hmounts : s'.mounts = s.mounts.set id node)
    (hfree : ∀ i, (s.fs.handles.get i).used = true → (s.fs.handles.get i).mount ≠ id) :
    SlotInv s' := by
  refine slotInv_congr h (by rw [hfs]) (by rw [hfs]) (fun i _ => by rw [hfs]; exact ⟨rfl, rfl⟩)
    (fun i hused => ?_) (fun i => by rw [hfs]; exact h.size i)
  rw [hmounts, get_set_other _ _ (hfree i hused)]

end Changes

theorem slotInv_sameMount (h : SlotInv s) (hfs : s'.fs = s.fs)
    (hmounts : ∀ id, SameMount (s'.mounts.get id) (s.mounts.get id)) : SlotInv s' :=
  slotInv_congr h (by rw [hfs]) (by rw [hfs]) (fun i _ => by rw [hfs]; exact ⟨rfl, rfl⟩)
    (fun i _ => (hmounts _).used) (fun i => by rw [hfs]; exact h.size i)

theorem file_of_regular {fs : FileSystem} {i : Nat} (h : (fs.inode i).kind = .regular) :
    (tree fs).dir i = false := by
  change ((fs.inode i).kind == .directory) = false
  rw [h]
  rfl

/-- Every change but a fresh start keeps the handle table sound. -/
theorem change_slotInv (ht : TablesInv s) (h : SlotInv s) (hc : Change noRemount s s') :
    SlotInv s' := by
  rcases ht with ⟨hm, ht⟩
  -- A file with an open handle is refused, and a directory has none.
  have hkept : ∀ i, (s.fs.handles.get i).used = true → _ := fun i hused => by
    refine (change_kept ⟨hm, ht⟩ hc).resolve_left (fun hfresh => hfresh.1) _ (h.file i hused).1
      fun hremoved => ?_
    rcases hremoved with ⟨-, hclosed⟩ | ⟨hdir, -⟩
    · have hnone := any_eq_false.mp hclosed i (lt_of_handle_used hused)
      rw [hused, beq_self_eq_true] at hnone
      exact absurd hnone (by decide)
    · exact absurd ((h.file i hused).2.1.symm.trans (dir_of_kind hdir)) (by decide)
  cases hc with
  | create => exact slotInv_congr h rfl rfl hkept (fun _ _ => rfl) (size_created h _ _ _ _ _ _)
  | remove => exact slotInv_congr h rfl rfl hkept (fun _ _ => rfl) (size_removed h _ _ _)
  | @renameHere _ parent slot =>
    refine slotInv_congr h rfl rfl hkept (fun _ _ => rfl) (fun i => ?_)
    change ((s.fs.setChild parent slot _).inode i).size ≤ fileMax
    rw [size_setChild]
    exact h.size i
  | move => exact slotInv_congr h rfl rfl hkept (fun _ _ => rfl) (size_moved h _ _ _ _ _ _)
  | @chmod inode mode =>
    refine slotInv_congr h rfl rfl hkept (fun _ _ => rfl) (size_setInode h.size inode ?_)
    exact h.size inode
  | @write inode data size hsize =>
    refine slotInv_congr h rfl rfl hkept (fun _ _ => rfl) (size_setInode h.size inode ?_)
    -- The new size is the larger of the old one and the end of what was written.
    have hold := h.size inode
    simp only
    omega
  | @openHandle slot mount inode hslot hkind hnode _ =>
    -- The file was found by a walk or has just been created.
    have hfound : (s.fs.inode inode).used = true ∧ (s.mounts.get mount).used = true := by
      rcases hnode with hres | hnode
      · exact ⟨resolves_used hm ht hres, (resolves_spec hm hres).2.1⟩
      · exact hnode
    exact opened_slotInv h hslot hfound.1 (file_of_regular hkind) hfound.2
  | closeHandle hslot hused _ => exact closed_slotInv h hslot hused
  | addMount _ _ _ _ _ hindex _ =>
    refine setMount_slotInv h rfl rfl (fun i hused hc => ?_)
    have hmount := (h.file i hused).2.2
    rw [hc, (mountSlot_free hindex).2] at hmount
    exact absurd hmount (by decide)
  | @removeMount id _ _ _ hhandles _ _ =>
    -- `unmount_mount` is busy while a handle goes through the mount.
    refine setMount_slotInv h rfl rfl (fun i hused hc => ?_)
    have hnone := any_eq_false.mp hhandles i (lt_of_handle_used hused)
    rw [hused, hc, beq_self_eq_true] at hnone
    exact absurd hnone (by decide)
  | addNamespace _ hmount _ =>
    refine setMount_slotInv h rfl rfl (fun i hused hc => ?_)
    have hthrough := (h.file i hused).2.2
    have hfree := (positionFromOne_some hmount).2.2
    rw [hc] at hthrough
    rw [hthrough] at hfree
    exact absurd hfree (by decide)
  | @removeNamespace ns root _ hroot _ hhandles _ =>
    rcases namespaceRoot_ok hroot with ⟨hns, rfl⟩
    have hnode := hm.ns_root ns hns
    -- Only the root mount goes, and no handle of the namespace is open.
    refine setMount_slotInv h rfl rfl (fun i hused hc => ?_)
    have hnone := any_eq_false.mp hhandles i (lt_of_handle_used hused)
    rw [hused, hc, hnode.1, hnode.2.1, beq_self_eq_true] at hnone
    exact absurd hnone (by decide)
  | hold _ _ => exact slotInv_sameMount h rfl (sameMount_held s _ _ _)
  | release _ _ => exact slotInv_sameMount h rfl (sameMount_released s _ _)
  | stop => exact slotInv_sameMount h rfl (fun id => SameMount.refl _)
  | fresh hallowed => exact hallowed.elim

theorem freshRamfs_slotInv : SlotInv freshRamfs := by
  have hfree : ∀ i, freshRamfs.fs.handles.get i = HandleSlot.empty := by
    intro i
    exact get_replicate_default i
  refine ⟨?_, fun i hused => ?_, fun i => ?_⟩
  · refine (count_eq_zero _ _ (fun i _ => ?_)).symm
    rw [hfree]
    rfl
  · rw [hfree] at hused
    exact absurd hused (by decide)
  · rw [freshRamfs_inode]
    by_cases hi : i = 0
    · rw [if_pos hi]
      exact Nat.zero_le _
    · rw [if_neg hi]
      exact Nat.zero_le _

/-! ### Held handles -/

/-- The held handles agree with the handle table: each matches a slot in use,
    no two the same, and none is past the end of the buffer. -/
structure HeldInv (w : World) : Prop where
  live : ∀ (k : Nat) (handle : FileHandle), w.files[k]? = some handle →
    w.vfs.fs.handles.get handle.slot
      = { used := true, mount := handle.mount, inode := handle.inode }
  distinct : ∀ (k k' : Nat) (handle handle' : FileHandle), w.files[k]? = some handle →
    w.files[k']? = some handle' → handle.slot = handle'.slot → k = k'
  offset : ∀ (k : Nat) (handle : FileHandle), w.files[k]? = some handle → handle.offset ≤ fileMax

/-- Slots in use stay as they are. -/
def KeepsSlots (s s' : Vfs) : Prop :=
  ∀ i, (s.fs.handles.get i).used = true → s'.fs.handles.get i = s.fs.handles.get i

variable {w : World}

/-- Every handle held afterwards was held before, in a place of its own, and has at
    most moved; its slot is as it was. -/
theorem heldInv_of {w' : World} (h : HeldInv w) (place : Nat → Nat)
    (hplace : ∀ k k', place k = place k' → k = k')
    (hback : ∀ (k : Nat) (handle' : FileHandle), w'.files[k]? = some handle' →
      ∃ before : FileHandle, w.files[place k]? = some before ∧ handle'.slot = before.slot ∧
        handle'.mount = before.mount ∧ handle'.inode = before.inode ∧ handle'.offset ≤ fileMax ∧
        w'.vfs.fs.handles.get before.slot = w.vfs.fs.handles.get before.slot) : HeldInv w' := by
  refine ⟨?_, ?_, ?_⟩
  · intro k handle' hk
    rcases hback k handle' hk with ⟨before, hbefore, hslot, hmount, hinode, -, hkeep⟩
    rw [hslot, hmount, hinode, hkeep]
    exact h.live _ before hbefore
  · intro k k' handle₁ handle₂ hk hk' hsame
    rcases hback k handle₁ hk with ⟨before₁, h₁, hslot₁, -⟩
    rcases hback k' handle₂ hk' with ⟨before₂, h₂, hslot₂, -⟩
    rw [hslot₁, hslot₂] at hsame
    exact hplace k k' (h.distinct _ _ before₁ before₂ h₁ h₂ hsame)
  · intro k handle' hk
    rcases hback k handle' hk with ⟨-, -, -, -, -, hbound, -⟩
    exact hbound

theorem heldInv_keeps {w' : World} (h : HeldInv w) (hfiles : w'.files = w.files)
    (hkeep : KeepsSlots w.vfs w'.vfs) : HeldInv w' := by
  refine heldInv_of h id (fun _ _ hkk => hkk) (fun k handle hk => ?_)
  rw [hfiles] at hk
  have hused : (w.vfs.fs.handles.get handle.slot).used = true := by rw [h.live k handle hk]
  exact ⟨handle, hk, rfl, rfl, rfl, h.offset k handle hk, hkeep handle.slot hused⟩

/-- No handle comes or goes. -/
def noOpening : Policy := { Policy.any with opening := False, remount := False }

theorem change_handles {π : Policy} (hopen : ¬ π.opening) (hfresh : ¬ π.remount)
    (hc : Change π s s') : s'.fs.handles = s.fs.handles := by
  cases hc with
  | openHandle _ _ _ hallowed | closeHandle _ _ hallowed => exact absurd hallowed hopen
  | fresh hallowed => exact absurd hallowed hfresh
  | _ => rfl

theorem once_handles (h : Once noOpening s s') : s'.fs.handles = s.fs.handles := by
  rcases h with rfl | hone | hquiet
  · rfl
  · exact change_handles id id hone
  · refine effects_invariant (P := fun t => t.fs.handles = s.fs.handles) (fun t t' hsame hc => ?_)
      hquiet rfl
    rw [change_handles (fun hopen => hopen) (fun hfresh => hfresh) hc, hsame]

/-- A request that neither opens nor closes leaves the handle table alone. -/
theorem step_handles (call : Call) (h : Allowed noOpening w call) :
    KeepsSlots w.vfs (w.step call).vfs := by
  intro i _
  rw [once_handles (step_once noOpening w call h)]

variable {path : Path} {options : OpenOptions} {handle : FileHandle}

/-- What a successful `open` did to the handle table. -/
theorem opens_handles (h : Opens s path options handle s') :
    handle.slot < maxOpenHandles ∧ (s.fs.handles.get handle.slot).used = false ∧
      handle.offset = 0 ∧
      s'.fs.handles = s.fs.handles.set handle.slot
        { used := true, mount := handle.mount, inode := handle.inode } := by
  rcases h with ⟨here, slot, s₁, htarget, _, _, hslot, rfl, rfl⟩
  -- Creating the file first does not touch the handle table.
  have hsame : s₁.fs.handles = s.fs.handles := by
    rcases htarget with ⟨rfl, _⟩ | hcreates
    · rfl
    · exact (creates_node hcreates).2.2.2.1
  rw [hsame] at hslot
  rcases position_eq_some.mp hslot with ⟨hlt, hfree, -⟩
  rw [Bool.not_eq_true'] at hfree
  refine ⟨hlt, hfree, rfl, ?_⟩
  rw [← hsame]
  rfl

theorem opens_keeps (h : Opens s path options handle s') : KeepsSlots s s' := by
  rcases opens_handles h with ⟨-, hfree, -, hset⟩
  intro i hused
  rw [hset]
  refine get_set_other _ _ (fun hi => ?_)
  rw [hi, hfree] at hused
  exact absurd hused (by decide)

/-- A failed `open` leaves the handle table alone, even if it created the
    file. -/
theorem openFile_failed_handles {e : Error} (h : openFile path options s = (.error e, s')) :
    s'.fs.handles = s.fs.handles := by
  rcases wp_error h (openFile_spec path options s) with rfl | ⟨here, hcreates, _⟩
  · rfl
  · exact (creates_node hcreates).2.2.2.1

/-- Closing gives back the handle's own slot or nothing. -/
theorem close_handles (handle : FileHandle) (s : Vfs) (i : Nat) (hi : i ≠ handle.slot) :
    (close handle s).2.fs.handles.get i = s.fs.handles.get i := by
  refine of_wp (P := fun s' => s'.fs.handles.get i = s.fs.handles.get i)
    (wp_mono (close_spec handle s) (fun _ s' h => ?_) (fun _ s' h => by rw [h.1]))
  rw [h.2]
  exact get_set_other s.fs.handles _ hi

/-- Opening a file, working on it and closing it again leaves the other slots
    alone. -/
theorem open_close_keeps {s₁ s₂ : Vfs} {handle' : FileHandle}
    (hopen : Opens s path options handle s₁) (hslot : handle'.slot = handle.slot)
    (hsame : s₂.fs.handles = s₁.fs.handles) : KeepsSlots s (close handle' s₂).2 := by
  intro i hused
  have hne : i ≠ handle'.slot := by
    rintro rfl
    rw [hslot, (opens_handles hopen).2.1] at hused
    exact absurd hused (by decide)
  rw [close_handles handle' s₂ i hne, hsame]
  exact opens_keeps hopen i hused

/-- What an operation on a held handle leaves: the same slots, and a handle
    that has at most moved. -/
structure Moves (b b' : Borrowed) : Prop where
  handles : b'.vfs.fs.handles = b.vfs.fs.handles
  slot : b'.handle.slot = b.handle.slot
  mount : b'.handle.mount = b.handle.mount
  inode : b'.handle.inode = b.handle.inode

theorem Moves.refl (b : Borrowed) : Moves b b := ⟨rfl, rfl, rfl, rfl⟩

/-- An operation on a held handle moves it at most to the end of the buffer. -/
def Steers {α : Type} (x : HandleM α) : Prop :=
  ∀ b : Borrowed, Moves b (x b).2 ∧ ((b.vfs.fs.inode b.handle.inode).size ≤ fileMax →
    b.handle.offset ≤ fileMax → (x b).2.handle.offset ≤ fileMax)

theorem steers_of_wp {α : Type} {x : HandleM α} {Q : Borrowed → α → Borrowed → Prop}
    (hspec : ∀ b, wp x (Q b) (fun _ b' => b' = b) b)
    (hQ : ∀ b a b', Q b a b' → Moves b b' ∧ ((b.vfs.fs.inode b.handle.inode).size ≤ fileMax →
      b.handle.offset ≤ fileMax → b'.handle.offset ≤ fileMax)) : Steers x := by
  intro b
  refine of_wp (P := fun b' => Moves b b' ∧ (_ → _ → b'.handle.offset ≤ fileMax))
    (wp_mono (hspec b) (hQ b) (fun _ b' h => ?_))
  rw [h]
  exact ⟨Moves.refl b, fun _ hoffset => hoffset⟩

/-- A read stops at the end of the file. -/
theorem readHandle_steers (length : Nat) : Steers (readHandle length) := by
  refine steers_of_wp (readHandle_spec length) ?_
  rintro b _ _ ⟨-, hstart, rfl⟩
  refine ⟨⟨rfl, rfl, rfl, rfl⟩, fun hsize hoffset => ?_⟩
  simp only [afterRead, readSpan]
  omega

theorem writeHandle_steers (input : List UInt8) : Steers (writeHandle input) := by
  refine steers_of_wp (writeHandle_spec input) ?_
  rintro b _ _ ⟨-, -, hend, rfl⟩
  exact ⟨⟨rfl, rfl, rfl, rfl⟩, fun _ _ => hend⟩

theorem seek_steers (offset : Int) : Steers (seek offset) := by
  refine steers_of_wp (seek_spec offset) ?_
  rintro b _ _ ⟨hend, rfl⟩
  exact ⟨⟨rfl, rfl, rfl, rfl⟩, fun _ _ => hend⟩

/-- A request that borrows a handle puts it back where it was. -/
theorem borrow_heldInv {α : Type} {held : Nat} {x : HandleM α} (hs : SlotInv w.vfs) (h : HeldInv w)
    (hx : Steers x) : HeldInv (w.borrow held x) := by
  rw [World.borrow]
  cases hheld : w.files[held]? with
  | none => exact h
  | some handle =>
    rcases hx { vfs := w.vfs, handle } with ⟨hm, hoffset⟩
    refine heldInv_of h id (fun _ _ hkk => hkk) (fun k handle' hk => ?_)
    by_cases hkh : held = k
    · subst hkh
      rw [List.getElem?_set_self', hheld] at hk
      obtain rfl : (x { vfs := w.vfs, handle }).2.handle = handle' := Option.some.inj hk
      exact ⟨handle, hheld, hm.slot, hm.mount, hm.inode,
        hoffset (hs.size _) (h.offset held handle hheld), by rw [hm.handles]⟩
    · rw [List.getElem?_set_ne hkh] at hk
      exact ⟨handle', hk, rfl, rfl, rfl, h.offset k handle' hk, by rw [hm.handles]⟩

/-- `open` hands out a handle for a slot nobody had. -/
theorem open_heldInv (h : HeldInv w) : HeldInv (w.step (.openFile path options)) := by
  rw [World.step]
  rcases hx : openFile path options w.vfs with ⟨e | handle, s'⟩
  · refine heldInv_keeps h rfl (fun i _ => ?_)
    rw [openFile_failed_handles hx]
  · have hopens := wp_ok hx (openFile_spec path options w.vfs)
    have hkeep := opens_keeps hopens
    rcases opens_handles hopens with ⟨hlt, hfree, hzero, hset⟩
    -- The slots of the handles already held are in use, the new one's was free.
    have hold : ∀ (k : Nat) (handle' : FileHandle), w.files[k]? = some handle' →
        handle'.slot ≠ handle.slot := by
      intro k handle' hk hc
      have hlive := h.live k handle' hk
      rw [hc] at hlive
      rw [hlive] at hfree
      exact absurd hfree (by simp)
    -- A handle held afterwards was held before or is the new one, at the end.
    have hcases : ∀ (k : Nat) (handle' : FileHandle), (w.files ++ [handle])[k]? = some handle' →
        w.files[k]? = some handle' ∨ (k = w.files.length ∧ handle' = handle) := by
      intro k handle' hk
      rw [List.getElem?_append] at hk
      by_cases hkl : k < w.files.length
      · rw [if_pos hkl] at hk
        exact .inl hk
      · rw [if_neg hkl, List.getElem?_singleton] at hk
        by_cases hkz : k - w.files.length = 0
        · rw [if_pos hkz] at hk
          exact .inr ⟨by omega, (Option.some.inj hk).symm⟩
        · rw [if_neg hkz] at hk
          cases hk
    refine ⟨?_, ?_, ?_⟩
    · intro k handle' hk
      rcases hcases k handle' hk with hk | ⟨-, rfl⟩
      · have hlive := h.live k handle' hk
        rw [hkeep handle'.slot (by rw [hlive]), hlive]
      · rw [hset, get_set_self _ _ hlt]
    · intro k k' handle₁ handle₂ hk hk' hsame
      rcases hcases k handle₁ hk with h₁ | ⟨hkl, h₁⟩
      · rcases hcases k' handle₂ hk' with h₂ | ⟨-, h₂⟩
        · exact h.distinct k k' handle₁ handle₂ h₁ h₂ hsame
        · rw [h₂] at hsame
          exact absurd hsame (hold k handle₁ h₁)
      · rcases hcases k' handle₂ hk' with h₂ | ⟨hkl', -⟩
        · rw [h₁] at hsame
          exact absurd hsame.symm (hold k' handle₂ h₂)
        · rw [hkl, hkl']
    · intro k handle' hk
      rcases hcases k handle' hk with hk | ⟨-, rfl⟩
      · exact h.offset k handle' hk
      · rw [hzero]
        exact Nat.zero_le _

/-- `close` takes back a handle, and clears the slot that was its alone. -/
theorem close_heldInv {held : Nat} (h : HeldInv w) : HeldInv (w.step (.close held)) := by
  rw [World.step]
  cases hheld : w.files[held]? with
  | none => exact h
  | some handle =>
    -- What is still held was held before, in another place; closing up the gap does
    -- not bring two places together.
    refine heldInv_of h (fun k => if k < held then k else k + 1) (fun k k' hkk => ?_)
      (fun k handle' hk => ?_)
    · split_ifs at hkk
      · exact hkk
      · omega
      · omega
      · omega
    · have hne : (if k < held then k else k + 1) ≠ held := by
        split_ifs
        · omega
        · omega
      rw [List.getElem?_eraseIdx, ← apply_ite (fun k => w.files[k]?)] at hk
      refine ⟨handle', hk, rfl, rfl, rfl, h.offset _ handle' hk, close_handles handle w.vfs _ ?_⟩
      exact fun hc => hne (h.distinct _ held handle' handle hk hheld hc)

theorem readPath_keeps (path : Path) (s : Vfs) : KeepsSlots s (readPath path s).2 := by
  rw [readPath]
  rcases hx : openFile path OpenOptions.readOnly s with ⟨e | handle, s₁⟩
  · intro i _
    rw [openFile_failed_handles hx]
  · have hmoves := (readHandle_steers 255 { vfs := s₁, handle }).1
    exact open_close_keeps (wp_ok hx (openFile_spec path _ s)) hmoves.slot hmoves.handles

theorem writePath_keeps (path : Path) (input : List UInt8) (s : Vfs) :
    KeepsSlots s (writePath path input s).2 := by
  rw [writePath]
  rcases hx : openFile path OpenOptions.writeCreate s with ⟨e | handle, s₁⟩
  · intro i _
    rw [openFile_failed_handles hx]
  · have hmoves := (writeHandle_steers input { vfs := s₁, handle }).1
    exact open_close_keeps (wp_ok hx (openFile_spec path _ s)) hmoves.slot hmoves.handles

/-- Every request keeps the held handles sound. -/
theorem step_heldInv {call : Call} (hs : SlotInv w.vfs) (h : HeldInv w)
    (hallowed : Allowed noRemount w call) : HeldInv (w.step call) := by
  cases call with
  | openFile path options => exact open_heldInv h
  | close held => exact close_heldInv h
  | readHandle held length => exact borrow_heldInv hs h (readHandle_steers length)
  | writeHandle held input => exact borrow_heldInv hs h (writeHandle_steers input)
  | seek held offset => exact borrow_heldInv hs h (seek_steers offset)
  | readPath path => exact heldInv_keeps h rfl (readPath_keeps path w.vfs)
  | writePath path input => exact heldInv_keeps h rfl (writePath_keeps path input w.vfs)
  | mountRamfs => exact hallowed.elim
  | removeDir path =>
    exact heldInv_keeps h rfl (step_handles (.removeDir path) (fun _ _ _ _ _ _ => trivial))
  | lookupInNamespace ns path =>
    refine heldInv_keeps h ?_ (step_handles (.lookupInNamespace ns path) trivial)
    rw [World.step]
    rcases lookupInNamespace ns path w.vfs with ⟨e | handle, s'⟩
    · rfl
    · rfl
  | releaseDentry held =>
    refine heldInv_keeps h ?_ (step_handles (.releaseDentry held) trivial)
    rw [World.step]
    cases w.dentries[held]? with
    | none => rfl
    | some handle => rfl
  | _ => exact heldInv_keeps h rfl (step_handles _ trivial)

theorem start_heldInv : HeldInv World.start := by
  have hnone : ∀ (k : Nat) (handle : FileHandle), World.start.files[k]? ≠ some handle := by
    intro k handle hk
    exact absurd hk (by simp [World.start])
  exact ⟨fun k handle hk => absurd hk (hnone k handle),
    fun k _ handle _ hk => absurd hk (hnone k handle),
    fun k handle hk => absurd hk (hnone k handle)⟩

/-- The tables and the held handles together, along a run. -/
theorem run_handles (calls : List Call)
    (hcalls : Obeys World.step (Allowed noRemount) World.start calls) :
    SlotInv (run World.step World.start calls).vfs ∧
      HeldInv (run World.step World.start calls) := by
  have hall := run_invariant World.step (Allowed noRemount)
    (fun w => (TablesInv w.vfs ∧ SlotInv w.vfs) ∧ HeldInv w) ?_ calls World.start
    ⟨⟨⟨freshRamfs_mountInv, freshRamfs_treeInv⟩, freshRamfs_slotInv⟩, start_heldInv⟩ hcalls
  · exact ⟨hall.1.2, hall.2⟩
  · intro w call h hallowed
    refine ⟨?_, step_heldInv h.1.2 h.2 hallowed⟩
    exact effects_invariant (P := fun s => TablesInv s ∧ SlotInv s)
      (fun s s' hs hc => ⟨change_tablesInv hs.1 hc, change_slotInv hs.1 hs.2 hc⟩)
      (once_effects (step_once noRemount w call hallowed)) h.1

/-- A handle that matches a slot of a file and a mount in use is valid. -/
theorem validateHandle_of_live
    (hslot : s.fs.handles.get handle.slot = { used := true, mount := handle.mount, inode :=
      handle.inode }) (hnode : (s.fs.inode handle.inode).used = true)
    (hmount : (s.mounts.get handle.mount).used = true) :
    validateHandle s handle = .ok handle.slot := by
  have hlt : handle.slot < maxOpenHandles := lt_of_handle_used (s := s) (by rw [hslot])
  rw [validateHandle, if_neg]
  rw [hslot, hnode, mountNode, if_pos hmount]
  simp [Except.toOption]
  exact hlt

/-- Open handles in every run that does not mount the root file system again:
    the count is the number of slots in use; a handle held by a caller is
    valid, of a regular file in use through a mount in use, and it and the file
    end within the buffer; no two have one slot; and what `read_handle` and
    `write_handle` copy lies within the buffer. -/
theorem open_handles_sound (calls : List Call)
    (hcalls : Obeys World.step (Allowed noRemount) World.start calls) :
    let w := run World.step World.start calls
    w.vfs.fs.openCount = w.vfs.fs.handles.count (fun handle => handle.used) ∧
    (∀ (k : Nat) (handle : FileHandle), w.files[k]? = some handle →
      validateHandle w.vfs handle = .ok handle.slot ∧
      (w.vfs.fs.inode handle.inode).used = true ∧
      (w.vfs.fs.inode handle.inode).kind = .regular ∧
      (w.vfs.mounts.get handle.mount).used = true ∧
      handle.offset ≤ fileMax ∧ (w.vfs.fs.inode handle.inode).size ≤ fileMax ∧
      (∀ length, (readSpan w.vfs handle length).1 + (readSpan w.vfs handle length).2 ≤ fileMax) ∧
      (∀ input n, (writeHandle input { vfs := w.vfs, handle }).1 = .ok n →
        (writeSpan handle input.length).1 + (writeSpan handle input.length).2 ≤ fileMax)) ∧
    (∀ (k k' : Nat) (handle handle' : FileHandle), w.files[k]? = some handle →
      w.files[k']? = some handle' → k ≠ k' → handle.slot ≠ handle'.slot) := by
  intro w
  rcases run_handles calls hcalls with ⟨hs, hh⟩
  refine ⟨hs.count, fun k handle hk => ?_, fun k k' handle handle' hk hk' hne hsame =>
    hne (hh.distinct k k' handle handle' hk hk' hsame)⟩
  have hlive := hh.live k handle hk
  have hfile := hs.file handle.slot (by rw [hlive])
  rw [hlive] at hfile
  have hoffset := hh.offset k handle hk
  have hsize := hs.size handle.inode
  refine ⟨validateHandle_of_live hlive hfile.1 hfile.2.2, hfile.1, ?_, hfile.2.2, hoffset, hsize,
    fun length => ?_, fun input n hok => ?_⟩
  · cases hkind : (w.vfs.fs.inode handle.inode).kind with
    | directory =>
      have hdir := hfile.2.1
      rw [dir_of_kind hkind] at hdir
      exact absurd hdir (by decide)
    | regular => rfl
  · simp only [readSpan]
    have hsize' : (w.vfs.fs.inode handle.inode).size ≤ fileMax := hsize
    omega
  · have hspec := wp_ok (Prod.ext hok rfl) (writeHandle_spec input { vfs := w.vfs, handle })
    exact hspec.2.2.1

/-- Two handles on one file. -/
theorem open_handles_sound_two :
    let calls := [Call.openFile [47, 97] OpenOptions.writeCreate,
      Call.openFile [47, 97] OpenOptions.readOnly, Call.writeHandle 0 [1, 2, 3]]
    let w := run World.step World.start calls
    w.files.length = 2 ∧
      w.vfs.fs.openCount = w.vfs.fs.handles.count (fun handle => handle.used) := by
  intro calls w
  have hlength : w.files.length = 2 := by decide +kernel
  exact ⟨hlength, (open_handles_sound calls ⟨trivial, trivial, trivial, trivial⟩).1⟩

end Vfs

end Norx
