import Norx.Lib.Run
import Norx.Vfs.Effects

/-!
# The File System and Its Callers

The state of the file system together with the handles its callers hold. A
handle is neither copyable nor forgeable in the source: `open` and `lookup`
give one out, `close` and `release_dentry` take it back, and the operations in
between borrow it. The callers' handles are therefore part of the state, and a
request names one by its place in the list of those held.

A request is any call of the public interface with any arguments. `mount`,
`mount_with_propagation` and `lookup` are instances of the calls listed here,
and the inspection functions change nothing. The three steps `init` is made of
that are not calls of their own are listed too: forgetting that the root file
system is mounted, mounting it, and unmounting it. So the states reached here
include every one `init` passes through, whenever it is called.

## Theorems

* `step_once`: A request makes only changes from the list.
* `run_vfs_invariant`: What every change preserves holds after every run.
-/

namespace Norx

namespace Vfs

open Fallible

/-- The file system and the handles its callers hold. -/
structure World where
  vfs : Vfs
  files : List FileHandle
  dentries : List DentryHandle

/-- The world right after `mount_ramfs`, no handle given out yet. -/
def World.start : World := { vfs := freshRamfs, files := [], dentries := [] }

/-- A request. A handle is named by its place among those held. -/
inductive Call where
  | mountInNamespace (ns : NamespaceId) (source : MountSource) (target : Path)
      (flags : MountFlags) (propagation : Propagation)
  | unmountMount (id : MountId)
  | createNamespace
  | destroyNamespace (ns : NamespaceId)
  | lookupInNamespace (ns : NamespaceId) (path : Path)
  | releaseDentry (held : Nat)
  | openFile (path : Path) (options : OpenOptions)
  | close (held : Nat)
  | readHandle (held : Nat) (length : Nat)
  | writeHandle (held : Nat) (input : List UInt8)
  | seek (held : Nat) (offset : Int)
  | chmod (path : Path) (mode : UInt16)
  | mkdir (path : Path)
  | unlink (path : Path)
  | removeDir (path : Path)
  | rename (oldPath newPath : Path)
  | readPath (path : Path)
  | writePath (path : Path) (input : List UInt8)
  | forget
  | mountRamfs
  | unmountRamfs

/-- Carry out an operation that borrows a held handle. -/
def World.borrow {α : Type} (w : World) (held : Nat) (x : HandleM α) : World :=
  match w.files[held]? with
  | none => w
  | some handle =>
    let after := (x { vfs := w.vfs, handle }).2
    { w with vfs := after.vfs, files := w.files.set held after.handle }

/-- Carry out a request. A request for a handle nobody holds cannot be made,
    and does nothing here. -/
def World.step (w : World) : Call → World
  | .mountInNamespace ns source target flags propagation =>
    { w with vfs := (mountInNamespace ns source target flags propagation w.vfs).2 }
  | .unmountMount id => { w with vfs := (unmountMount id w.vfs).2 }
  | .createNamespace => { w with vfs := (createNamespace w.vfs).2 }
  | .destroyNamespace ns => { w with vfs := (destroyNamespace ns w.vfs).2 }
  | .lookupInNamespace ns path =>
    match lookupInNamespace ns path w.vfs with
    | (.ok handle, s) => { w with vfs := s, dentries := w.dentries ++ [handle] }
    | (.error _, s) => { w with vfs := s }
  | .releaseDentry held =>
    match w.dentries[held]? with
    | none => w
    | some handle =>
      { w with vfs := (releaseDentry handle w.vfs).2, dentries := w.dentries.eraseIdx held }
  | .openFile path options =>
    match openFile path options w.vfs with
    | (.ok handle, s) => { w with vfs := s, files := w.files ++ [handle] }
    | (.error _, s) => { w with vfs := s }
  | .close held =>
    match w.files[held]? with
    | none => w
    | some handle => { w with vfs := (close handle w.vfs).2, files := w.files.eraseIdx held }
  | .readHandle held length => w.borrow held (readHandle length)
  | .writeHandle held input => w.borrow held (writeHandle input)
  | .seek held offset => w.borrow held (seek offset)
  | .chmod path mode => { w with vfs := (chmod path mode w.vfs).2 }
  | .mkdir path => { w with vfs := (mkdir path w.vfs).2 }
  | .unlink path => { w with vfs := (unlink path w.vfs).2 }
  | .removeDir path => { w with vfs := (removeDir path w.vfs).2 }
  | .rename oldPath newPath => { w with vfs := (rename oldPath newPath w.vfs).2 }
  | .readPath path => { w with vfs := (readPath path w.vfs).2 }
  | .writePath path input => { w with vfs := (writePath path input w.vfs).2 }
  | .forget => { w with vfs := { w.vfs with mounted := false } }
  | .mountRamfs => { w with vfs := (mountRamfs w.vfs).2 }
  | .unmountRamfs => { w with vfs := (unmountRamfs w.vfs).2 }

/-- The request respects the policy where it is made. -/
def Allowed (π : Policy) (w : World) : Call → Prop
  | .removeDir path => ∀ mount parent name child,
      parentAndNameMount w.vfs path rootNamespace = .ok (mount, parent, name) →
      findChild w.vfs.fs parent name = some child → π.removeDirectory w.vfs child
  | .destroyNamespace ns => π.destroyNamespace w.vfs ns
  | .mountInNamespace _ _ _ _ _ => π.mounting
  | .unmountMount _ => π.mounting
  | .createNamespace => π.mounting
  | .openFile _ _ => π.opening
  | .close _ => π.opening
  | .readPath _ => π.opening
  | .writePath _ _ => π.opening
  | .mountRamfs => π.remount
  | _ => True

/-- The code as it stands allows every request. -/
theorem allowed_any (w : World) (call : Call) : Allowed Policy.any w call := by
  cases call with
  | removeDir path =>
    intro _ _ _ _ _ _
    trivial
  | _ => trivial

/-- The scope of a request. -/
def Call.scope (s : Vfs) : Call → Scope
  | .unlink path => { frees := Names s path, writes := fun _ => False }
  | .removeDir path => { frees := Names s path, writes := fun _ => False }
  | .mkdir path => { frees := fun _ => False, writes := Component path }
  | .rename _ newPath => { frees := fun _ => False, writes := Component newPath }
  | .openFile path _ => { frees := fun _ => False, writes := Component path }
  | .readPath path => { frees := fun _ => False, writes := Component path }
  | .writePath path _ => { frees := fun _ => False, writes := Component path }
  | _ => { frees := fun _ => False, writes := fun _ => False }

theorem borrow_does (π : Policy) (σ : Scope) {α : Type} (w : World) (held : Nat) (x : HandleM α)
    (h : ∀ b : Borrowed, Done π σ b.vfs (x b).2.vfs) : Done π σ w.vfs (w.borrow held x).vfs := by
  rw [World.borrow]
  cases w.files[held]? with
  | none => exact .inl rfl
  | some handle => exact h { vfs := w.vfs, handle }

/-- Mounting the root file system starts over, or fails because one is
    mounted. -/
theorem mountRamfs_cases (s : Vfs) :
    (s.mounted = false ∧ (mountRamfs s).2 = freshRamfs) ∨ (mountRamfs s).2 = s := by
  refine of_wp (P := fun s' => (s.mounted = false ∧ s' = freshRamfs) ∨ s' = s) ?_
  simp [mountRamfs]
  intro hmounted
  exact .inl (Bool.not_eq_true _ ▸ hmounted)

/-- A request does one thing, nothing, or several quiet ones, all in its scope, unless
    it starts over. -/
theorem step_does (π : Policy) (w : World) (call : Call) (h : Allowed π w call) :
    Done π (call.scope w.vfs) w.vfs (w.step call).vfs ∨
      (call = .mountRamfs ∧ w.vfs.mounted = false ∧ (w.step call).vfs = freshRamfs) := by
  cases call with
  | mountRamfs =>
    rcases mountRamfs_cases w.vfs with ⟨hmounted, hfresh⟩ | hsame
    · exact .inr ⟨rfl, hmounted, hfresh⟩
    · exact .inl (.inl hsame)
  | mountInNamespace ns source target flags propagation =>
    exact .inl (mountInNamespace_does _ ns source target flags propagation w.vfs h).done
  | unmountMount id => exact .inl (unmountMount_does _ id w.vfs h).done
  | createNamespace => exact .inl (createNamespace_does _ w.vfs h).done
  | destroyNamespace ns => exact .inl (destroyNamespace_does _ ns w.vfs h).done
  | lookupInNamespace ns path =>
    have hdone := (lookupInNamespace_does π (Call.scope w.vfs (.lookupInNamespace ns path)) ns path
      w.vfs).done
    rw [World.step]
    rcases hx : lookupInNamespace ns path w.vfs with ⟨_ | handle, s⟩
    · rw [hx] at hdone
      exact .inl hdone
    · rw [hx] at hdone
      exact .inl hdone
  | releaseDentry held =>
    rw [World.step]
    cases w.dentries[held]? with
    | none => exact .inl (.inl rfl)
    | some handle => exact .inl (releaseDentry_does π _ handle w.vfs).done
  | openFile path options =>
    have hopen := openFile_does (σ := Call.scope w.vfs (.openFile path options)) options w.vfs h
      (fun _ h => h)
    rw [World.step]
    rcases hx : openFile path options w.vfs with ⟨_ | handle, s⟩
    · rw [hx] at hopen
      exact .inl (.inr (.inr hopen))
    · rw [hx] at hopen
      exact .inl (.inr (.inr hopen))
  | close held =>
    rw [World.step]
    cases w.files[held]? with
    | none => exact .inl (.inl rfl)
    | some handle => exact .inl (close_does _ handle w.vfs h).done
  | readHandle held length =>
    exact .inl (borrow_does π _ w held _ (fun b => .inl (readHandle_vfs length b)))
  | writeHandle held input => 
    exact .inl (borrow_does π _ w held _ (fun b => .inr (.inr (writeHandle_does _ _ input b))))
  | seek held offset =>
    exact .inl (borrow_does π _ w held _ (fun b => .inl (seek_vfs offset b)))
  | chmod path mode => exact .inl (chmod_does π _ path mode w.vfs).done
  | mkdir path => exact .inl (mkdir_does π w.vfs (fun _ h => h)).done
  | unlink path => exact .inl (unlink_does π w.vfs (fun _ h => h)).done
  | removeDir path => exact .inl (removeDir_does w.vfs (fun _ h => h) h).done
  | rename oldPath newPath => exact .inl (rename_does π oldPath w.vfs (fun _ h => h)).done
  | readPath path => exact .inl (.inr (.inr (readPath_does w.vfs h (fun _ h => h))))
  | writePath path input => exact .inl (.inr (.inr (writePath_does input w.vfs h (fun _ h => h))))
  | forget => exact .inl (.inr (.inl ⟨.stop, .keep rfl⟩))
  | unmountRamfs => exact .inl (unmountRamfs_does π _ w.vfs).done

/-- A request makes one change from the list, none, or several quiet ones. -/
theorem step_once (π : Policy) (w : World) (call : Call) (h : Allowed π w call) :
    Once π w.vfs (w.step call).vfs := by
  rcases step_does π w call h with hdone | ⟨rfl, -, hfresh⟩
  · exact hdone.once
  · rw [hfresh]
    exact .inr (.inl (.fresh h))

/-- What every change preserves, any number of them preserve. -/
theorem effects_invariant {π : Policy} {P : Vfs → Prop}
    (hchange : ∀ s s', P s → Change π s s' → P s') {s s' : Vfs} (heff : Effects π s s')
    (hs : P s) : P s' := by
  induction heff with
  | refl => exact hs
  | tail _ hone ih => exact hchange _ _ ih hone

/-- What holds of a fresh file system and survives every change holds after
    every run that respects the policy. -/
theorem run_vfs_invariant (π : Policy) (P : Vfs → Prop) (hfresh : P freshRamfs)
    (hchange : ∀ s s', P s → Change π s s' → P s') (calls : List Call)
    (hcalls : Obeys World.step (Allowed π) World.start calls) :
    P (run World.step World.start calls).vfs := by
  refine run_invariant World.step (Allowed π) (fun w => P w.vfs) (fun w call hw hok => ?_) calls
    World.start hfresh hcalls
  exact effects_invariant hchange (once_effects (step_once π w call hok)) hw

end Vfs

end Norx
