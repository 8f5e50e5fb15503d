import Norx.Lib.Checked
import Norx.Paging.Aarch64
import Norx.Paging.X86

/-!
# Address Space Operations

The operations of `AddressSpace`, statement by statement. They run in an
environment of the space itself, the frame allocator and the hardware, and an
early return keeps what was written before it. Which paging module is called
depends on the target.

The loop of `load` consumes bytes in every turn, so the number of bytes bounds
it.

## Main definitions

* `userSpaceMap`, `userSpaceUnmap`, `userSpacePrepare`, `userSpaceReset`,
  `zeroPhysicalPage`, `writePhysical`: The paging module of the target.
* `new`, `mapPage`, `mapAnonymous`, `mapStack`, `growStack`: Creating and mapping.
* `removeMapping`, `unmapPage`, `releaseTableFrames`, `destroy`: Taking back.
* `activate`, `load`, `loadWords`: The hardware's tables, and filling pages.
-/

namespace Norx

namespace Space

open Fallible

/-- What the operations can reach. -/
structure Env where
  frames : Memory.Held
  hardware : Hardware
  space : AddressSpace

/-- A program over a space. -/
abbrev SpaceM := Fallible Env Error

namespace Env

def setFrames (e : Env) (frames : Memory.Held) : Env := { e with frames }

def setHardware (e : Env) (hardware : Hardware) : Env := { e with hardware }

def setSpace (e : Env) (space : AddressSpace) : Env := { e with space }

def setMapping (e : Env) (slot : Nat) (mapping : Option MappingInfo) : Env :=
  e.setSpace (e.space.setMapping slot mapping)

/-- What the paging code is given of it. -/
def paging (e : Env) : Paging.State :=
  { frames := e.frames, hardware := e.hardware, tables := e.space.tableFrames }

def setPaging (e : Env) (s : Paging.State) : Env :=
  { frames := s.frames, hardware := s.hardware,
    space := { e.space with tableFrames := s.tables } }

end Env

/-! ### The paging module of the target -/

def walker : Machine → Paging.Walker
  | .x86_64 => Paging.X86.walker
  | .aarch64 => Paging.Aarch64.walker

def userSpaceMap (target : Machine) (root : UInt64) (mapping : MappingInfo) : SpaceM Bool :=
  succeeds (within Env.paging Env.setPaging ((walker target).userSpaceMap root mapping))

def userSpaceUnmap (target : Machine) (root : UInt64) (virtualAddress : Nat) : SpaceM Bool :=
  succeeds (within Env.paging Env.setPaging ((walker target).userSpaceUnmap root virtualAddress))

def prepareRoot : Machine → UInt64 → Hardware → Bool × Hardware
  | .x86_64 => Paging.X86.userSpacePrepare
  | .aarch64 => Paging.Aarch64.userSpacePrepare

def resetRoot : Machine → UInt64 → Hardware → Hardware
  | .x86_64 => Paging.X86.userSpaceReset
  | .aarch64 => Paging.Aarch64.userSpaceReset

def zeroFrame : Machine → UInt64 → Hardware → Bool × Hardware
  | .x86_64 => Paging.X86.zeroPhysicalPage
  | .aarch64 => Paging.Aarch64.zeroPhysicalPage

def writeFrame : Machine → UInt64 → Nat → List UInt8 → Hardware → Bool × Hardware
  | .x86_64 => Paging.X86.writePhysical
  | .aarch64 => Paging.Aarch64.writePhysical

def userSpacePrepare (target : Machine) (root : UInt64) : SpaceM Bool :=
  within (·.hardware) Env.setHardware (act (prepareRoot target root))

def userSpaceReset (target : Machine) (root : UInt64) : SpaceM Unit :=
  modify (fun e => e.setHardware (resetRoot target root e.hardware))

def zeroPhysicalPage (target : Machine) (frame : UInt64) : SpaceM Bool :=
  within (·.hardware) Env.setHardware (act (zeroFrame target frame))

def writePhysical (target : Machine) (frame : UInt64) (offset : Nat) (bytes : List UInt8) :
    SpaceM Bool :=
  within (·.hardware) Env.setHardware (act (writeFrame target frame offset bytes))

def allocFrame : SpaceM UInt64 := do
  let found ← within (·.frames) Env.setFrames (act Memory.Held.take)
  lookup .noFrames (fun _ => found)

def freeFrame (frame : UInt64) : SpaceM Bool :=
  within (·.frames) Env.setFrames (act (Memory.Held.give frame))

/-! ### Mapping -/

def mapPage (target : Machine) (virtualAddress : Nat) (flags : PageFlags) (kind : MappingKind) :
    SpaceM MappingInfo := do
  if (← read (·.space.rootFrame)) = none then fail .invalidState
  lift (fun _ => flags.validate)
  lift (fun _ => validatePage target virtualAddress)
  if (← read (·.space.stackGuard)) = some virtualAddress ∧ kind ≠ .stack then fail .guardPage
  if (← read (fun e => e.space.mappings.any (mapsPage virtualAddress))) = true then fail .overlap
  let slot ← lookup .mappingCapacity (fun e => e.space.mappings.position Option.isNone)
  let physicalFrame ← allocFrame
  let _ ← zeroPhysicalPage target physicalFrame
  let mapping := { virtualAddress, physicalFrame, flags, kind }
  modify (·.setMapping slot (some mapping))
  if (← read (·.space.active)) = true then
    let root ← lookup .invalidState (·.space.rootFrame)
    if (← userSpaceMap target root mapping) = false then
      modify (·.setMapping slot none)
      let _ ← freeFrame physicalFrame
      fail .hardwareMapping
  return mapping

def removeMapping (target : Machine) (virtualAddress : Nat) : SpaceM Unit := do
  let slot ← lookup .invalidAddress (fun e => e.space.mappings.position (mapsPage virtualAddress))
  if (← read (·.space.active)) = true then
    let root ← lookup .invalidState (·.space.rootFrame)
    if (← userSpaceUnmap target root virtualAddress) = false then fail .hardwareMapping
  let mapping ← lookup .invalidAddress (fun e => e.space.mappings.get slot)
  modify (·.setMapping slot none)
  if (← freeFrame mapping.physicalFrame) = false then
    modify (·.setMapping slot (some mapping))
    fail .frameReturn

def mapAnonymous (target : Machine) (virtualAddress : Nat) (flags : PageFlags) :
    SpaceM MappingInfo :=
  mapPage target virtualAddress flags .anonymous

/-- One turn of the loop of `map_stack`: map the page, or take back the ones
    before it. -/
def mapStackPage (target : Machine) (first index : Nat) : SpaceM Unit := do
  match (← attempt (mapPage target (first + index * pageSize) PageFlags.userRw .stack)) with
  | .ok _ => pure ()
  | .error error =>
    (List.range index).forM fun rollback => do
      let _ ← attempt (removeMapping target (first + rollback * pageSize))
    fail error

def mapStack (target : Machine) : SpaceM Unit := do
  if (← read (·.space.stackPages)) ≠ 0 ∨ (← read (·.space.rootFrame)) = none then
    fail .invalidState
  let top ← read (·.space.stackTop)
  if top < initialStackPages * pageSize then fail .invalidAddress
  let first := top - initialStackPages * pageSize
  (List.range initialStackPages).forM (mapStackPage target first)
  modify (fun e => e.setSpace { e.space with
    stackPages := initialStackPages
    stackGuard := if first < pageSize then none else some (first - pageSize) })

def growStack (target : Machine) (faultAddress : Nat) : SpaceM Bool := do
  match (← read (·.space.stackGuard)) with
  | none => return false
  | some guard_ =>
    if pageOf faultAddress ≠ guard_ then return false
    else if (← read (·.space.stackPages)) = maxStackPages then return false
    else
      let _ ← mapPage target guard_ PageFlags.userRw .stack
      modify (fun e => e.setSpace { e.space with
        stackPages := e.space.stackPages + 1
        stackGuard := if guard_ < pageSize then none else some (guard_ - pageSize) })
      return true

/-! ### Taking back -/

def unmapPage (target : Machine) (virtualAddress : Nat) : SpaceM Unit := do
  let mapping ← lookup .invalidAddress (·.space.mapping virtualAddress)
  if mapping.kind = .stack then fail .invalidState
  removeMapping target virtualAddress

/-- Every table frame is taken out of its slot and given back. -/
def releaseTableFrames : SpaceM Unit := do
  let frames ← read (·.space.tableFrames.entries)
  modify (fun e => e.setSpace
    { e.space with tableFrames := Slots.replicate maxTableFrames none })
  frames.forM fun frame => do
    let _ ← freeFrame frame

/-- The space's tables are no longer in use. -/
def deactivate (target : Machine) (root : UInt64) : SpaceM Unit := do
  if (← read (·.space.active)) = true then
    userSpaceReset target root
    modify (fun e => e.setSpace { e.space with active := false })

/-- Every page is given back, and then all of them are forgotten. -/
def releasePages : SpaceM Unit := do
  (← read (·.space.mappings.entries)).forM fun mapping => do
    if (← freeFrame mapping.physicalFrame) = false then fail .frameReturn
  modify (fun e => e.setSpace { e.space with mappings := Slots.replicate maxMappings none })

def releaseRoot : SpaceM Unit := do
  let root ← lookup .invalidState (·.space.rootFrame)
  modify (fun e => e.setSpace { e.space with rootFrame := none })
  if (← freeFrame root) = false then fail .frameReturn

def destroy (target : Machine) : SpaceM Unit := do
  let root ← lookup .invalidState (·.space.rootFrame)
  deactivate target root
  if (← read (·.space.rootFrame)) = none then fail .invalidState
  releasePages
  releaseTableFrames
  releaseRoot
  modify (fun e => e.setSpace { e.space with owner := none, stackGuard := none, stackPages := 0 })

/-! ### The hardware's tables, and filling pages -/

/-- One turn of the loop of `activate`: enter a page, or give up. -/
def enterMapping (target : Machine) (root : UInt64) (mapping : MappingInfo) : SpaceM Unit := do
  if (← userSpaceMap target root mapping) = false then
    userSpaceReset target root
    releaseTableFrames
    fail .hardwareMapping

def activate (target : Machine) : SpaceM Unit := do
  let root ← lookup .invalidState (·.space.rootFrame)
  if (← read (·.space.active)) = true then fail .invalidState
  if (← userSpacePrepare target root) = false then fail .hardwareUnavailable
  (← read (·.space.mappings.entries)).forM (enterMapping target root)
  modify (fun e => e.setSpace { e.space with active := true })

/-- The loop of `load`, for at most as many turns as there are bytes. -/
def loadFrom (target : Machine) : Nat → Nat → List UInt8 → SpaceM Unit
  | 0, _, _ => pure ()
  | turns + 1, cursor, bytes =>
    if bytes = [] then pure () else do
      let page := pageOf cursor
      let mapping ← lookup .invalidAddress (·.space.mapping page)
      let count := min (pageSize - (cursor - page)) bytes.length
      if (← writePhysical target mapping.physicalFrame (cursor - page) (bytes.take count)) = false
      then fail .hardwareUnavailable
      let cursor ← lookup .invalidAddress (fun _ => Usize.checkedAdd cursor count)
      loadFrom target turns cursor (bytes.drop count)

def load (target : Machine) (virtualAddress : Nat) (bytes : List UInt8) : SpaceM Unit := do
  if (← read (·.space.rootFrame)) = none then fail .invalidState
  loadFrom target bytes.length virtualAddress bytes

/-- The words from some index of the list on. -/
def loadWordsFrom (target : Machine) (virtualAddress : Nat) : Nat → List UInt64 → SpaceM Unit
  | _, [] => pure ()
  | index, word :: words => do
    let offset ← lookup .invalidAddress (fun _ => Usize.checkedMul index 8)
    let address ← lookup .invalidAddress (fun _ => Usize.checkedAdd virtualAddress offset)
    load target address (leBytes 8 word.toNat)
    loadWordsFrom target virtualAddress (index + 1) words

def loadWords (target : Machine) (virtualAddress : Nat) (words : List UInt64) : SpaceM Unit :=
  loadWordsFrom target virtualAddress 0 words

/-- `AddressSpace::new`, which has no space to run on yet. -/
def new (target : Machine) (owner : Process.ProcessId) (aslr : AslrHook) :
    Fallible Memory.Held Error AddressSpace := do
  let found ← act Memory.Held.take
  let root ← lookup .noFrames (fun _ => found)
  return AddressSpace.fresh target owner aslr root

end Space

end Norx
