import Norx.Space.Ops

/-!
# Runs of the Address Spaces

The kernel's address spaces, with the frame allocator and the hardware they
share. A call makes a new space or runs an operation on one of those there are;
whatever it returns, the space it was on and what it shares are kept as the
operation left them. A destroyed space stays in the list, where every further
operation on it fails.

Filling a page is part of a history too: by `load`, and by the process itself,
which can write to the bytes of its own writable pages.

## Main definitions

* `World`: The spaces and what they share.
* `SpaceCall`, `Call`: The operations on a space, and on the world.
* `perform`, `step`: What a call does.
-/

namespace Norx

namespace Space

open Fallible

structure World where
  frames : Memory.Held
  hardware : Hardware
  spaces : List AddressSpace

/-- An operation on a space. -/
inductive SpaceCall where
  | mapAnonymous (virtualAddress : Nat) (flags : PageFlags)
  | mapStack
  | growStack (faultAddress : Nat)
  | unmapPage (virtualAddress : Nat)
  | activate
  | destroy
  | load (virtualAddress : Nat) (bytes : List UInt8)
  | loadWords (virtualAddress : Nat) (words : List UInt64)
  | store (address : Nat) (byte : UInt8)
  deriving DecidableEq, Repr

inductive Call where
  | new (owner : Process.ProcessId) (aslr : AslrHook)
  | on (index : Nat) (call : SpaceCall)
  deriving DecidableEq, Repr

/-- A process writes a byte of one of its writable pages. -/
def store (address : Nat) (byte : UInt8) : SpaceM Unit := do
  let mapping ← lookup .invalidAddress (·.space.mapping (pageOf address))
  if mapping.flags.writable = false then fail .noAccess
  modify (fun e => e.setHardware { e.hardware with
    memory := e.hardware.memory.write (mapping.physicalFrame.toNat + (address - pageOf address))
      [byte] })

/-- An operation, for its effect. -/
def perform (target : Machine) : SpaceCall → SpaceM Unit
  | .mapAnonymous virtualAddress flags => do
    let _ ← mapAnonymous target virtualAddress flags
  | .mapStack => mapStack target
  | .growStack faultAddress => do
    let _ ← growStack target faultAddress
  | .unmapPage virtualAddress => unmapPage target virtualAddress
  | .activate => activate target
  | .destroy => destroy target
  | .load virtualAddress bytes => load target virtualAddress bytes
  | .loadWords virtualAddress words => loadWords target virtualAddress words
  | .store address byte => store address byte

namespace World

/-- The allocator after `init`, and no spaces. -/
def start (frames : Memory.State) (hardware : Hardware) : World :=
  { frames := { state := frames, live := [] }, hardware, spaces := [] }

/-- What an operation on a space of the world can reach. -/
def env (w : World) (space : AddressSpace) : Env :=
  { frames := w.frames, hardware := w.hardware, space }

/-- Put back what an operation left. -/
def put (w : World) (index : Nat) (e : Env) : World :=
  { frames := e.frames, hardware := e.hardware, spaces := w.spaces.set index e.space }

/-- A new space, or just what the failed call left of the allocator. -/
def add (w : World) : Except Error AddressSpace × Memory.Held → World
  | (.ok space, frames) => { w with frames, spaces := w.spaces ++ [space] }
  | (.error _, frames) => { w with frames }

end World

def step (target : Machine) (w : World) : Call → World
  | .new owner aslr => w.add (new target owner aslr w.frames)
  | .on index call =>
    match w.spaces[index]? with
    | none => w
    | some space => w.put index (perform target call (w.env space)).2

end Space

end Norx
