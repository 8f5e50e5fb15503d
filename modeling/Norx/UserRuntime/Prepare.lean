import Norx.Elf.Stack
import Norx.Space.World

/-!
# Preparing a Program

The part of `user_runtime.rs` that makes an address space for a program: its
segments are mapped and, if there is an image, filled from it, then the stack is
mapped and its first words are written.

A mapping that fails, or a stack that cannot be built, destroys the new space
before the error is returned. Every other early return just drops it.

The loop over the pages of a segment goes up a page in every turn, so the size
of the segment bounds it.

## Main definitions

* `Error`, `NativeRuntime`: What is returned.
* `Call`, `step`: Runs of the address spaces with programs prepared in between.
-/

namespace Norx

namespace UserRuntime

open Fallible Space

inductive Error where
  | elf (error : Elf.Error)
  | addressSpace (error : Space.Error)
  | invalidState
  | noSpace
  | invalidFd
  | outputTooLong
  | userEntryUnavailable
  deriving DecidableEq, Repr

structure NativeRuntime where
  addressSpace : AddressSpace
  registers : Elf.InitialRegisters
  heapNext : Nat
  started : Bool
  exited : Bool

/-- A program on the space that is being prepared. -/
abbrev RuntimeM := Fallible Env Error

/-- An operation of the space, with its error as one of the runtime's. -/
def onSpace {α : Type} (x : SpaceM α) : RuntimeM α := mapError Error.addressSpace x

/-- A step that destroys the space before it returns its error. -/
def orDestroy {α : Type} (target : Machine) (x : RuntimeM α) : RuntimeM α := do
  match (← attempt x) with
  | .ok a => return a
  | .error error =>
    let _ ← attempt (onSpace (destroy target))
    fail error

def pageFlags (flags : Elf.SegmentFlags) : PageFlags :=
  { user := true, readable := flags.readable, writable := flags.writable,
    executable := flags.executable }

/-- The loop over the pages of a segment, for at most so many turns. -/
def mapPages (target : Machine) (flags : PageFlags) (end_ : Nat) : Nat → Nat → RuntimeM Unit
  | 0, _ => pure ()
  | turns + 1, page =>
    if page < end_ then do
      let _ ← orDestroy target (onSpace (mapAnonymous target page flags))
      let page ← lookup .noSpace (fun _ => Usize.checkedAdd page pageSize)
      mapPages target flags end_ turns page
    else pure ()

/-- Fill a segment from the image. -/
def loadSegment (target : Machine) (image : List UInt8) (plan : Elf.LoadPlan)
    (segment : Elf.SegmentPlan) : RuntimeM Unit :=
  if segment.fileSize ≠ 0 then do
    let fileOffset ← lookup .invalidState
      (fun _ => plan.fileOffset segment.virtualStart segment.fileSize)
    let fileEnd ← lookup .noSpace (fun _ => Usize.checkedAdd fileOffset segment.fileSize)
    let bytes ← lookup .invalidState (fun _ => getRange image fileOffset fileEnd)
    onSpace (load target segment.virtualStart bytes)
  else pure ()

/-- One turn of the loop over the segments, which keeps the end of the last one. -/
def prepareSegment (target : Machine) (image : Option (List UInt8)) (plan : Elf.LoadPlan)
    (heapNext index : Nat) : RuntimeM Nat := do
  let segment ← lookup .invalidState (fun _ => plan.segment index)
  mapPages target (pageFlags segment.flags) segment.virtualEnd
    (segment.virtualEnd - segment.virtualStart) segment.virtualStart
  match image with
  | some image => loadSegment target image plan segment
  | none => pure ()
  return max heapNext segment.virtualEnd

/-- Everything after the space has been made. -/
def prepareSpace (target : Machine) (image : Option (List UInt8)) (plan : Elf.LoadPlan)
    (arguments environment : List (List UInt8)) : RuntimeM (Elf.InitialRegisters × Nat) := do
  let heapNext ← (List.range plan.segmentCount).foldlM (prepareSegment target image plan) 0
  orDestroy target (onSpace (mapStack target))
  let stack ← orDestroy target (mapError Error.elf (lift (fun _ =>
    plan.buildInitialStack target (userLimit target - pageSize) arguments environment)))
  if image.isSome then onSpace (loadWords target stack.stackPointer stack.words)
  let heapNext ← lookup .noSpace (fun _ => Elf.alignUp heapNext pageSize)
  return (stack.registers target plan.entry, heapNext)

/-- `prepare_internal`. The runtime's space joins the spaces there are; a space
    that was dropped does not. -/
def prepareInternal (target : Machine) (owner : Process.ProcessId) (image : Option (List UInt8))
    (plan : Elf.LoadPlan) (aslr : AslrHook) (arguments environment : List (List UInt8)) :
    Fallible World Error NativeRuntime := fun w =>
  match new target owner aslr w.frames with
  | (.error error, frames) => (.error (.addressSpace error), { w with frames })
  | (.ok space, frames) =>
    match prepareSpace target image plan arguments environment
        { frames, hardware := w.hardware, space } with
    | (.error error, e) => (.error error, { w with frames := e.frames, hardware := e.hardware })
    | (.ok (registers, heapNext), e) =>
      (.ok { addressSpace := e.space, registers, heapNext, started := false, exited := false },
        { frames := e.frames, hardware := e.hardware, spaces := w.spaces ++ [e.space] })

def prepare (target : Machine) (owner : Process.ProcessId) (plan : Elf.LoadPlan) (aslr : AslrHook)
    (arguments environment : List (List UInt8)) : Fallible World Error NativeRuntime :=
  prepareInternal target owner none plan aslr arguments environment

def prepareImage (target : Machine) (owner : Process.ProcessId) (image : List UInt8)
    (plan : Elf.LoadPlan) (aslr : AslrHook) (arguments environment : List (List UInt8)) :
    Fallible World Error NativeRuntime :=
  prepareInternal target owner (some image) plan aslr arguments environment

/-- A call on the spaces, or a program prepared. -/
inductive Call where
  | space (call : Space.Call)
  | prepare (owner : Process.ProcessId) (plan : Elf.LoadPlan) (aslr : AslrHook)
      (arguments environment : List (List UInt8))
  | prepareImage (owner : Process.ProcessId) (image : List UInt8) (plan : Elf.LoadPlan)
      (aslr : AslrHook) (arguments environment : List (List UInt8))

def step (target : Machine) (w : World) : Call → World
  | .space call => Space.step target w call
  | .prepare owner plan aslr arguments environment =>
    (prepare target owner plan aslr arguments environment w).2
  | .prepareImage owner image plan aslr arguments environment =>
    (prepareImage target owner image plan aslr arguments environment w).2

end UserRuntime

end Norx
