import Norx.Vfs.Atomic

/-!
# Read-Only Mounts

The operations that write to the tree find the mount they act through in three
ways: `chmod` and `open` on an existing file resolve the path itself, the
others resolve its directory, and `write_handle` uses the mount its handle
recorded. Each then reads that mount's flags before it writes anything.

`readOnly_refused` covers them at once. `open` is the one with two ways: an
existing file is checked after it is found, a missing one before it is created.

## Theorems

* `refused_of_wp`: A program that cannot succeed and changes nothing.
* `readOnly_refused`: Every such request fails and changes nothing.
-/

namespace Norx

namespace Vfs

open Fallible

/-- The mount's flags say read-only. -/
def ReadOnly (s : Vfs) (mount : MountId) : Prop := (s.mounts.get mount).flags.readOnly = true

/-- The directory of the path is reached through a read-only mount. -/
def ReadOnlyParent (s : Vfs) (path : Path) : Prop :=
  ∃ mount parent name, parentAndNameMount s path rootNamespace = .ok (mount, parent, name) ∧
    ReadOnly s mount

/-- The path itself is reached through a read-only mount. -/
def ReadOnlyPath (s : Vfs) (path : Path) : Prop :=
  ∃ mount inode, resolveMount s path rootNamespace = .ok (mount, inode) ∧ ReadOnly s mount

/-- The request writes, and acts through a read-only mount. `open` acts through
    the file's mount if the file exists and through its directory's if not;
    `rename` acts through two. -/
def ReadOnlyTarget (w : World) : Call → Prop
  | .openFile path options => (options.write = true ∨ options.create = true) ∧
      (ReadOnlyPath w.vfs path ∨
        (∃ e, resolveMount w.vfs path rootNamespace = .error e) ∧ ReadOnlyParent w.vfs path)
  | .writeHandle held _ => ∃ handle, w.files[held]? = some handle ∧ ReadOnly w.vfs handle.mount
  | .chmod path _ => ReadOnlyPath w.vfs path
  | .mkdir path => ReadOnlyParent w.vfs path
  | .unlink path => ReadOnlyParent w.vfs path
  | .removeDir path => ReadOnlyParent w.vfs path
  | .rename oldPath newPath => ReadOnlyParent w.vfs oldPath ∨ ReadOnlyParent w.vfs newPath
  | _ => False

/-- A program that cannot succeed and changes nothing. -/
theorem refused_of_wp {σ α : Type} {x : Fallible σ Error α} {s : σ}
    (h : wp x (fun _ _ => False) (fun _ s' => s' = s) s) :
    (∃ e, errorOf (x s).1 = some e) ∧ (x s).2 = s := by
  rcases hx : x s with ⟨e | a, s'⟩
  · exact ⟨⟨e, rfl⟩, wp_error (E := fun _ s' => s' = s) hx h⟩
  · exact (wp_ok (Q := fun _ _ => False) hx h).elim

variable {s : Vfs} {flags : MountFlags}

/-- Whoever reads the flags of a read-only mount sees it. -/
theorem readOnly_flags {mount : MountId} (hro : ReadOnly s mount)
    (h : mountFlags s mount = .ok flags) : flags.readOnly = true := by
  rcases except_bind_ok h with ⟨node, hnode, hflags⟩
  rcases mountNode_ok hnode with ⟨_, rfl⟩
  rw [← Except.ok.inj hflags]
  exact hro

variable {path : Path}

/-- The test the operations on a directory share. -/
theorem readOnlyParent_flags {found : MountId × Nat × Name} (hro : ReadOnlyParent s path)
    (hfound : parentAndNameMount s path rootNamespace = .ok found)
    (h : mountFlags s found.1 = .ok flags) : flags.readOnly = true := by
  rcases hro with ⟨mount, parent, name, hparent, hro⟩
  rw [hparent] at hfound
  rw [← Except.ok.inj hfound] at h
  exact readOnly_flags hro h

theorem mkdir_readOnly (hro : ReadOnlyParent s path) :
    wp (mkdir path) (fun _ _ => False) (fun _ s' => s' = s) s := by
  simp only [mkdir, wp_withFs, wp_bind, wp_ite, wp_fail, wp_pure, wp_lift, implies_true, and_true,
    true_and]
  intro _ found hfound flags hflags hwritable
  exact absurd (readOnlyParent_flags hro hfound hflags) hwritable

theorem unlink_readOnly (hro : ReadOnlyParent s path) :
    wp (unlink path) (fun _ _ => False) (fun _ s' => s' = s) s := by
  simp only [unlink, wp_withFs, wp_bind, wp_ite, wp_fail, wp_lift, implies_true, and_true,
    true_and]
  intro _ found hfound flags hflags hwritable
  exact absurd (readOnlyParent_flags hro hfound hflags) hwritable

theorem removeDir_readOnly (hro : ReadOnlyParent s path) :
    wp (removeDir path) (fun _ _ => False) (fun _ s' => s' = s) s := by
  simp only [removeDir, wp_withFs, wp_bind, wp_ite, wp_fail, wp_lift, implies_true, and_true,
    true_and]
  intro _ found hfound flags hflags hwritable
  exact absurd (readOnlyParent_flags hro hfound hflags) hwritable

theorem chmod_readOnly {mode : UInt16} (hro : ReadOnlyPath s path) :
    wp (chmod path mode) (fun _ _ => False) (fun _ s' => s' = s) s := by
  simp only [chmod, wp_withFs, wp_bind, wp_ite, wp_fail, wp_lift, implies_true, and_true, true_and]
  intro _ here hhere flags hflags hwritable
  rcases hro with ⟨mount, inode, hres, hro⟩
  rw [hres] at hhere
  rw [← Except.ok.inj hhere] at hflags
  exact absurd (readOnly_flags hro hflags) hwritable

/-- Both directories are in one mount by the time its flags are read. -/
theorem rename_readOnly {oldPath newPath : Path}
    (hro : ReadOnlyParent s oldPath ∨ ReadOnlyParent s newPath) :
    wp (rename oldPath newPath) (fun _ _ => False) (fun _ s' => s' = s) s := by
  rw [rename, wp_withFs]
  refine ⟨fun _ => rfl, fun _ => ?_⟩
  simp only [wp_bind, wp_lift, wp_lookup, implies_true, and_true]
  intro old hold inode _ new hnew
  rw [wp_ite]
  refine ⟨fun _ => rfl, fun hsame => ?_⟩
  rw [not_not] at hsame
  simp only [wp_bind, wp_lift, implies_true, and_true]
  intro flags hflags
  rw [wp_ite]
  refine ⟨fun _ => rfl, fun hwritable => ?_⟩
  -- The flags read are the old directory's; the new one's mount is the same.
  rcases hro with hro | hro
  · exact absurd (readOnlyParent_flags hro hold hflags) hwritable
  · rw [hsame] at hflags
    exact absurd (readOnlyParent_flags hro hnew hflags) hwritable

theorem openFile_readOnly {options : OpenOptions}
    (hwrite : options.write = true ∨ options.create = true)
    (hro : ReadOnlyPath s path ∨ (∃ e, resolveMount s path rootNamespace = .error e) ∧
      ReadOnlyParent s path) :
    wp (openFile path options) (fun _ _ => False) (fun _ s' => s' = s) s := by
  rw [openFile, wp_withFs]
  refine ⟨fun _ => rfl, fun _ => ?_⟩
  rw [wp_bind]
  refine wp_post (openTarget_spec path options s) (fun here s₁ htarget => ?_)
  rcases htarget with ⟨rfl, hres⟩ | hcreates
  · -- The file exists, so it is its own mount that is read-only.
    have hhere : ReadOnly s₁ here.1 := by
      rcases hro with ⟨mount, inode, hres', hro⟩ | ⟨⟨e, herr⟩, -⟩
      · rw [hres] at hres'
        rw [Except.ok.inj hres']
        exact hro
      · rw [hres] at herr
        cases herr
    simp only [wp_bind, wp_ite, wp_fail, wp_lift, implies_true, and_true, true_and]
    refine ⟨fun _ flags hflags hwritable => ?_, fun hread => absurd hwrite hread⟩
    exact absurd (readOnly_flags hhere hflags) hwritable
  · -- A file is never created in a read-only mount.
    rcases hcreates with ⟨parent, name, slot, flags, hres, _, hparent, hflags, hwritable, _⟩
    rcases hro with ⟨mount, inode, hres', -⟩ | ⟨-, hro⟩
    · rw [hres] at hres'
      cases hres'
    · rw [readOnlyParent_flags hro hparent hflags] at hwritable
      exact absurd hwritable (by decide)

theorem writeHandle_readOnly (input : List UInt8) {b : Borrowed}
    (hro : ReadOnly b.vfs b.handle.mount) :
    wp (writeHandle input) (fun _ _ => False) (fun _ b' => b' = b) b := by
  refine wp_post (writeHandle_spec input b) (fun _ _ h => ?_)
  -- A write that succeeds has seen a writable mount.
  rcases h with ⟨-, ⟨flags, hflags, hwritable⟩, -⟩
  rw [readOnly_flags hro hflags] at hwritable
  exact absurd hwritable (by decide)

/-- A request that writes through a read-only mount fails, and the file system
    is as it was: no inode's kind, mode, size, data, parent or entries have
    changed, nor anything else. -/
theorem readOnly_refused (w : World) (call : Call) (h : ReadOnlyTarget w call) :
    (∃ e, w.failure call = some e) ∧ (w.step call).vfs = w.vfs := by
  cases call with
  | openFile path options =>
    rcases refused_of_wp (openFile_readOnly h.1 h.2) with ⟨⟨e, he⟩, hsame⟩
    refine ⟨⟨e, he⟩, ?_⟩
    rw [World.step]
    rcases hx : openFile path options w.vfs with ⟨e' | handle, s'⟩
    · rw [hx] at hsame
      exact hsame
    · rw [hx] at hsame
      exact hsame
  | writeHandle held input =>
    rcases h with ⟨handle, hheld, hro⟩
    have hrefused := refused_of_wp (writeHandle_readOnly input
      (b := { vfs := w.vfs, handle }) hro)
    rcases hrefused with ⟨⟨e, he⟩, hsame⟩
    refine ⟨⟨e, ?_⟩, ?_⟩
    · rw [World.failure, World.borrowFailure, hheld]
      exact he
    · rw [World.step, World.borrow, hheld]
      exact congrArg Borrowed.vfs hsame
  | chmod path mode => exact refused_of_wp (chmod_readOnly h)
  | mkdir path => exact refused_of_wp (mkdir_readOnly h)
  | unlink path => exact refused_of_wp (unlink_readOnly h)
  | removeDir path => exact refused_of_wp (removeDir_readOnly h)
  | rename oldPath newPath => exact refused_of_wp (rename_readOnly h)
  | _ => exact h.elim

/-- Creating `/a/b` below a read-only mount on `/a`. -/
theorem readOnly_refused_mkdir :
    let w := run World.step World.start [Call.mkdir [47, 97],
      Call.mountInNamespace rootNamespace .ramfs [47, 97]
        { MountFlags.defaults with readOnly := true } .private_]
    (∃ e, w.failure (.mkdir [47, 97, 47, 98]) = some e) ∧
      (w.step (.mkdir [47, 97, 47, 98])).vfs = w.vfs := by
  intro w
  refine readOnly_refused w (.mkdir [47, 97, 47, 98]) ?_
  have hparent : parentAndNameMount w.vfs [47, 97, 47, 98] rootNamespace
      = .ok (1, 1, ⟨[98], by decide⟩) := by decide +kernel
  have hro : (w.vfs.mounts.get 1).flags.readOnly = true := by decide +kernel
  exact ⟨1, 1, _, hparent, hro⟩

end Vfs

end Norx
