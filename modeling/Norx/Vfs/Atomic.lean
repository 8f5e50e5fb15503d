import Norx.Vfs.World

/-!
# Failed Requests

An operation that returns an error should leave everything as it was. Every
operation checks before it writes, with one exception: `open` with `create`
makes the file first and looks for a handle slot afterwards. With every slot in
use it returns `NoSpace` and the new file stays behind. `failed_request_iff`
says that this is the only case.

## Theorems

* `openFile_strandsFile`: In that case the state changes.
* `stranded_file`: A run that ends in such a failure.
* `failed_request_iff`: Otherwise a failed request changes nothing.
-/

namespace Norx

namespace Vfs

open Fallible

/-- The error of a result. -/
def errorOf {α : Type} : Except Error α → Option Error
  | .ok _ => none
  | .error e => some e

/-- The error an operation on a held handle returns. -/
def World.borrowFailure {α : Type} (w : World) (held : Nat) (x : HandleM α) : Option Error :=
  (w.files[held]?).bind (fun handle => errorOf (x { vfs := w.vfs, handle }).1)

/-- The error a request returns. `read` and `write` report failure by other
    means, and forgetting the root file system cannot fail. -/
def World.failure (w : World) : Call → Option Error
  | .mountInNamespace ns source target flags propagation =>
    errorOf (mountInNamespace ns source target flags propagation w.vfs).1
  | .unmountMount id => errorOf (unmountMount id w.vfs).1
  | .createNamespace => errorOf (createNamespace w.vfs).1
  | .destroyNamespace ns => errorOf (destroyNamespace ns w.vfs).1
  | .lookupInNamespace ns path => errorOf (lookupInNamespace ns path w.vfs).1
  | .releaseDentry held =>
    (w.dentries[held]?).bind (fun handle => errorOf (releaseDentry handle w.vfs).1)
  | .openFile path options => errorOf (openFile path options w.vfs).1
  | .close held => (w.files[held]?).bind (fun handle => errorOf (close handle w.vfs).1)
  | .readHandle held length => w.borrowFailure held (readHandle length)
  | .writeHandle held input => w.borrowFailure held (writeHandle input)
  | .seek held offset => w.borrowFailure held (seek offset)
  | .chmod path mode => errorOf (chmod path mode w.vfs).1
  | .mkdir path => errorOf (mkdir path w.vfs).1
  | .unlink path => errorOf (unlink path w.vfs).1
  | .removeDir path => errorOf (removeDir path w.vfs).1
  | .rename oldPath newPath => errorOf (rename oldPath newPath w.vfs).1
  | .mountRamfs => errorOf (mountRamfs w.vfs).1
  | .unmountRamfs => errorOf (unmountRamfs w.vfs).1
  | .readPath _ => none
  | .writePath _ _ => none
  | .forget => none

/-- The world without the handle the request takes by value: `close` and
    `release_dentry` consume theirs whether they succeed or not. -/
def World.consume (w : World) : Call → World
  | .releaseDentry held => { w with dentries := w.dentries.eraseIdx held }
  | .close held => { w with files := w.files.eraseIdx held }
  | _ => w

/-- `open` will create a file and have no handle for it: the path names
    nothing in a directory that could take it, and every handle slot is in
    use. -/
def StrandsFile (s : Vfs) (path : Path) (options : OpenOptions) : Prop :=
  s.mounted = true ∧ resolveMount s path rootNamespace = .error .notFound ∧
  options.create = true ∧
  (∃ mount parent name flags,
    parentAndNameMount s path rootNamespace = .ok (mount, parent, name) ∧
    mountFlags s mount = .ok flags ∧ flags.readOnly = false ∧
    findChild s.fs parent name = none ∧ (s.fs.inode parent).kind = .directory ∧
    hasFreeChild s.fs parent = true) ∧
  s.fs.inodes.any (fun inode => !inode.used) = true ∧
  s.fs.handles.any (fun handle => !handle.used) = false

variable {s : Vfs}

/-- The directory takes the node. -/
theorem createNodeAt_succeeds {parent : Nat} {name : Name} (kind : NodeType) (mode : UInt16)
    (hname : findChild s.fs parent name = none) (hdir : (s.fs.inode parent).kind = .directory)
    (hroom : hasFreeChild s.fs parent = true)
    (hinode : s.fs.inodes.any (fun inode => !inode.used) = true) :
    wp (createNodeAt parent name kind mode)
      (fun inode s' => (s.fs.inode inode).used = false ∧ (s'.fs.inode inode).used = true)
      (fun _ _ => False) s := by
  have hsome : s.fs.inodes.position (fun inode => !inode.used) ≠ none := by
    intro hnone
    rw [← Slots.position_isSome_iff_any, hnone] at hinode
    exact absurd hinode (by decide)
  simp only [createNodeAt, addChild, wp_bind, wp_ite, wp_read, wp_fail, wp_pure, wp_lookup,
    wp_modify]
  refine ⟨fun h => ?_, fun _ => ⟨fun h => h hdir, fun _ => ⟨fun h => ?_, fun _ =>
    ⟨fun inode hpos => ⟨fun slot _ => ?_, fun h => ?_⟩, fun h => hsome h⟩⟩⟩⟩
  · rw [hname] at h
    exact absurd h (by decide)
  · rw [hroom] at h
    exact absurd h (by decide)
  · rcases Slots.position_eq_some.mp hpos with ⟨hlt, hfree, -⟩
    rw [Bool.not_eq_true'] at hfree
    exact ⟨hfree, (created_inode s parent slot name kind mode hlt).1⟩
  · -- `add_child` cannot fail: writing the new inode takes no entry slot.
    rcases Slots.position_eq_some.mp hpos with ⟨hlt, -, -⟩
    exact free_slot_after_setInode hroom hlt h

variable {path : Path} {options : OpenOptions}

/-- The first half of `open` then creates the file. -/
theorem openTarget_creates (h : StrandsFile s path options) :
    wp (openTarget path options)
      (fun here s' => (s.fs.inode here.2).used = false ∧ (s'.fs.inode here.2).used = true)
      (fun _ _ => False) s := by
  rcases h with ⟨_, hres, hcreate, ⟨mount, parent, name, flags, hparent, hflags, hwritable, hname,
    hdir, hroom⟩, hinode, _⟩
  simp only [openTarget, wp_bind, wp_read, hres]
  rw [if_pos ⟨trivial, hcreate⟩]
  simp [wp_lift, hparent, hflags, hwritable]
  exact createNodeAt_succeeds .regular 0o644 hname hdir hroom hinode

/-- So `open` has changed the state by the time it fails. -/
theorem openFile_strandsFile (h : StrandsFile s path options) :
    (openFile path options s).2 ≠ s := by
  -- Whatever comes after keeps the new inode in use.
  have hkeep : ∀ here (s₁ s' : Vfs), ((s.fs.inode here).used = false ∧
      (s₁.fs.inode here).used = true) → s'.fs.inodes = s₁.fs.inodes → s' ≠ s := by
    intro here s₁ s' hnew hsame hc
    rw [hc] at hsame
    rw [FileSystem.inode, FileSystem.inode, ← hsame] at hnew
    rw [hnew.1] at hnew
    exact absurd hnew.2 (by decide)
  refine of_wp (P := fun s' => s' ≠ s) ?_
  rw [openFile, wp_withFs]
  refine ⟨fun hmounted => ?_, fun _ => ?_⟩
  · rw [h.1] at hmounted
    exact absurd hmounted (by decide)
  rw [wp_bind]
  refine wp_mono (openTarget_creates h) (fun here s₁ hnew => ?_) (fun _ _ hf => hf.elim)
  -- The second half takes a handle or fails; neither frees the inode.
  have htail : wp (openNode options here) (fun _ s' => s' ≠ s) (fun _ s' => s' ≠ s) s₁ := by
    refine wp_mono (openNode_spec options here s₁) (fun _ s' hs => ?_) (fun _ s' hs => ?_)
    · rcases hs with ⟨slot, _, _, _, rfl⟩
      exact hkeep here.2 s₁ _ hnew rfl
    · rw [hs.1]
      exact hkeep here.2 s₁ s₁ hnew rfl
  simp only [wp_bind, wp_ite, wp_fail, wp_lift]
  exact ⟨fun _ => ⟨fun _ _ => ⟨fun _ => hkeep here.2 s₁ s₁ hnew rfl, fun _ => htail⟩,
    fun _ _ => hkeep here.2 s₁ s₁ hnew rfl⟩, fun _ => htail⟩

/-- What a failed `open` left behind tells what it found. -/
theorem strandsFile_of_strands {s' : Vfs} (hmounted : s.mounted = true)
    (h : Strands s path options s') : StrandsFile s path options := by
  rcases h with ⟨here, ⟨parent, name, slot, flags, hres, hcreate, hparent, hflags, hwritable, hdir,
    hname, hroom, hinode, -, -⟩, hfull⟩
  refine ⟨hmounted, hres, hcreate, ⟨here.1, parent, name, flags, hparent, hflags, hwritable, hname,
    hdir, hroom⟩, ?_, ?_⟩
  · rw [← Slots.position_isSome_iff_any, hinode, Option.isSome_some]
  · rw [← Slots.position_isSome_iff_any, hfull, Option.isSome_none]

/-- A file system that is not mounted refuses everything. -/
theorem openFile_unmounted (hmounted : s.mounted = false) : (openFile path options s).2 = s := by
  refine of_wp (P := fun s' => s' = s) ?_
  rw [openFile, wp_withFs]
  refine ⟨fun _ => rfl, fun h => ?_⟩
  rw [hmounted] at h
  exact absurd h (by decide)

variable {e : Error}

theorem openFile_failed_iff (s : Vfs) (path : Path) (options : OpenOptions)
    (h : (openFile path options s).1 = .error e) :
    (openFile path options s).2 = s ↔ ¬ StrandsFile s path options := by
  constructor
  · intro hsame hstrands
    exact openFile_strandsFile hstrands hsame
  · intro hnot
    cases hmounted : s.mounted with
    | false => exact openFile_unmounted hmounted
    | true =>
      rcases wp_error (Prod.ext h rfl) (openFile_spec path options s) with hsame | hstrands
      · exact hsame
      · exact absurd (strandsFile_of_strands hmounted hstrands) hnot

/-- A program that changes nothing when it fails. -/
theorem failed_unchanged {σ α : Type} {x : Fallible σ Error α} {Q : α → σ → Prop} {s : σ}
    (h : wp x Q (fun _ s' => s' = s) s) (he : errorOf (x s).1 = some e) : (x s).2 = s := by
  rcases hx : x s with ⟨e' | a, s'⟩
  · exact wp_error (E := fun _ s' => s' = s) hx h
  · rw [hx] at he
    exact absurd he (by simp [errorOf])

/-- An operation on a held handle that changes nothing when it fails leaves the
    handle as it was too. -/
theorem failed_borrow {α : Type} {w : World} {held : Nat} {x : HandleM α}
    {Q : Borrowed → α → Borrowed → Prop} (h : ∀ b, wp x (Q b) (fun _ b' => b' = b) b)
    (he : w.borrowFailure held x = some e) : w.borrow held x = w := by
  rw [World.borrow]
  rw [World.borrowFailure] at he
  cases hheld : w.files[held]? with
  | none => rfl
  | some handle =>
    rw [hheld] at he
    have hsame := failed_unchanged (h { vfs := w.vfs, handle }) he
    simp only [hsame]
    -- The handle goes back to the place it was borrowed from.
    have hset : w.files.set held handle = w.files := by
      refine List.ext_getElem? (fun i => ?_)
      by_cases hi : held = i
      · rw [← hi, List.getElem?_set_self', hheld]
        rfl
      · rw [List.getElem?_set_ne hi]
    rw [hset]

/-- With all sixteen handle slots taken, `open("/b", write_create)` returns
    `NoSpace` and `/b` exists afterwards. -/
theorem stranded_file :
    let calls := List.replicate 16 (Call.openFile [47, 97] OpenOptions.writeCreate)
    let w := run World.step World.start calls
    let request := Call.openFile [47, 98] OpenOptions.writeCreate
    w.failure request = some .noSpace ∧
    (resolveMount w.vfs [47, 98] rootNamespace).toOption = none ∧
    resolveMount (w.step request).vfs [47, 98] rootNamespace = .ok (0, 2) := by
  decide +kernel

/-- Every request but `open` checks before it writes. -/
theorem failed_step {w : World} {call : Call} (h : w.failure call = some e)
    (hne : ∀ path options, call ≠ .openFile path options) : w.step call = w.consume call := by
  have hplain : ∀ {s' : Vfs}, s' = w.vfs → { w with vfs := s' } = w := by
    rintro s' rfl
    rfl
  let σ := call.scope w.vfs
  cases call with
  | mountInNamespace ns source target flags propagation =>
    exact hplain
      (failed_unchanged (mountInNamespace_spec ns source target flags propagation w.vfs) h)
  | unmountMount id => exact hplain (failed_unchanged (unmountMount_does (π := .any) σ id w.vfs trivial) h)
  | createNamespace => exact hplain (failed_unchanged (createNamespace_spec w.vfs) h)
  | destroyNamespace ns =>
    exact hplain (failed_unchanged (destroyNamespace_does (π := .any) σ ns w.vfs trivial) h)
  | lookupInNamespace ns path =>
    have hsame := failed_unchanged (lookupInNamespace_spec ns path w.vfs) h
    rw [World.failure] at h
    rw [World.step]
    rcases hx : lookupInNamespace ns path w.vfs with ⟨e' | handle, s'⟩
    · rw [hx] at hsame
      exact hplain hsame
    · rw [hx] at h
      exact absurd h (by simp [errorOf])
  | releaseDentry held =>
    rw [World.failure, Option.bind_eq_some_iff] at h
    rcases h with ⟨handle, hheld, herr⟩
    rw [World.step, hheld, World.consume]
    simp only [failed_unchanged (releaseDentry_does .any σ handle w.vfs) herr]
  | openFile path options => exact absurd rfl (hne path options)
  | close held =>
    rw [World.failure, Option.bind_eq_some_iff] at h
    rcases h with ⟨handle, hheld, herr⟩
    rw [World.step, hheld, World.consume]
    simp only [failed_unchanged (close_does (π := .any) σ handle w.vfs trivial) herr]
  | readHandle held length => exact failed_borrow (readHandle_spec length) h
  | writeHandle held input => exact failed_borrow (writeHandle_spec input) h
  | seek held offset => exact failed_borrow (seek_spec offset) h
  | chmod path mode => exact hplain (failed_unchanged (chmod_rewrites path mode w.vfs) h)
  | mkdir path => exact hplain (failed_unchanged (mkdir_creates path w.vfs) h)
  | unlink path => exact hplain (failed_unchanged (unlink_removes path w.vfs) h)
  | removeDir path => exact hplain (failed_unchanged (removeDir_removes path w.vfs) h)
  | rename oldPath newPath =>
    exact hplain (failed_unchanged (rename_relinks oldPath newPath w.vfs) h)
  | mountRamfs => exact hplain (failed_unchanged (mountRamfs_spec w.vfs) h)
  | unmountRamfs => exact hplain (failed_unchanged (unmountRamfs_does .any σ w.vfs) h)
  | readPath | writePath | forget => exact absurd h (by simp [World.failure])

/-- A request that returns an error leaves every table, and every handle it did
    not consume, as it was, unless it is an `open` that had to create the file
    and found no handle slot for it. -/
theorem failed_request_iff (w : World) (call : Call) (e : Error) (h : w.failure call = some e) :
    w.step call = w.consume call ↔
      ¬ ∃ path options, call = .openFile path options ∧ StrandsFile w.vfs path options := by
  by_cases hopen : ∃ path options, call = .openFile path options
  · rcases hopen with ⟨path, options, rfl⟩
    rcases hx : openFile path options w.vfs with ⟨e' | handle, s'⟩
    · have hiff := openFile_failed_iff w.vfs path options (by rw [hx])
      rw [hx] at hiff
      have hstep : w.step (.openFile path options) = { w with vfs := s' } := by
        rw [World.step, hx]
      rw [hstep]
      change { w with vfs := s' } = w ↔ _
      constructor
      · rintro hsame ⟨path', options', hcall, hstrands⟩
        cases hcall
        exact hiff.mp (congrArg World.vfs hsame) hstrands
      · intro hnot
        have hs' : s' = w.vfs := hiff.mpr (fun hstrands => hnot ⟨path, options, rfl, hstrands⟩)
        rw [hs']
    · rw [World.failure, hx] at h
      exact absurd h (by simp [errorOf])
  · refine ⟨fun _ => ?_, fun _ => failed_step h (fun path options hcall => ?_)⟩
    · rintro ⟨path, options, hcall, -⟩
      exact hopen ⟨path, options, hcall⟩
    · exact hopen ⟨path, options, hcall⟩

/-- A `mkdir` with an empty path fails and changes nothing. -/
theorem failed_request_iff_mkdir :
    World.start.failure (.mkdir []) = some .invalidPath ∧
      World.start.step (.mkdir []) = World.start := by
  have hfails : World.start.failure (.mkdir []) = some .invalidPath := by decide +kernel
  refine ⟨hfails, (failed_request_iff World.start (.mkdir []) .invalidPath hfails).mpr ?_⟩
  rintro ⟨path, options, hcall, -⟩
  exact nomatch hcall

end Vfs

end Norx
