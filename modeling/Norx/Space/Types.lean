import Norx.Arch.Target
import Norx.Process.Types

/-!
# Address Space Data Model

The records of `address_space.rs`. An address space is a fixed table of
mappings, the root frame of its page tables, the frames its lower tables take,
and the three fields that describe its stack. It is destroyed when it has no
root frame.

The source has a private `Mapping` and a public `MappingInfo` with the same
fields; here both are `MappingInfo`. Virtual addresses are numbers, physical
ones words.

## Main definitions

* `PageFlags`, `MappingKind`, `MappingInfo`: A mapping.
* `Error`: What an operation can fail with.
* `AddressSpace`: The record.
* `PageFlags.validate`, `validatePage`: The two checks of a new mapping.
* `AddressSpace.mapping`: Looking up a page.
-/

namespace Norx

namespace Space

def maxMappings : Nat := 64
def maxTableFrames : Nat := 192
def initialStackPages : Nat := 2
def maxStackPages : Nat := 8

inductive Error where
  | noFrames
  | mappingCapacity
  | invalidAddress
  | unaligned
  | overlap
  | guardPage
  | kernelMapping
  | writeExecute
  | noAccess
  | invalidState
  | frameReturn
  | hardwareUnavailable
  | hardwareMapping
  deriving DecidableEq, Repr

structure PageFlags where
  user : Bool
  readable : Bool
  writable : Bool
  executable : Bool
  deriving DecidableEq, Repr

namespace PageFlags

def userRead : PageFlags :=
  { user := true, readable := true, writable := false, executable := false }

def userRw : PageFlags :=
  { user := true, readable := true, writable := true, executable := false }

def userRx : PageFlags :=
  { user := true, readable := true, writable := false, executable := true }

def validate (flags : PageFlags) : Except Error Unit := do
  if flags.user = false then throw .kernelMapping
  if flags.writable = true ∧ flags.executable = true then throw .writeExecute
  if flags.readable = false ∧ flags.writable = false ∧ flags.executable = false then
    throw .noAccess

end PageFlags

inductive MappingKind where
  | anonymous
  | stack
  deriving DecidableEq, Repr

structure MappingInfo where
  virtualAddress : Nat
  physicalFrame : UInt64
  flags : PageFlags
  kind : MappingKind
  deriving DecidableEq, Repr

structure AslrHook where
  seed : UInt64
  deriving DecidableEq, Repr

/-- The mappings of a space, by slot. -/
abbrev Mappings := Slots maxMappings (Option MappingInfo)

/-- The frames of the page tables below the root, by slot. -/
abbrev Tables := Slots maxTableFrames (Option UInt64)

structure AddressSpace where
  owner : Option Process.ProcessId
  rootFrame : Option UInt64
  mappings : Mappings
  stackTop : Nat
  stackGuard : Option Nat
  stackPages : Nat
  aslr : AslrHook
  active : Bool
  tableFrames : Tables

namespace AddressSpace

/-- A space that has just been given its root frame. -/
def fresh (target : Machine) (owner : Process.ProcessId) (aslr : AslrHook) (root : UInt64) :
    AddressSpace :=
  { owner := some owner, rootFrame := some root, mappings := Slots.replicate maxMappings none,
    stackTop := userLimit target - pageSize, stackGuard := none, stackPages := 0, aslr,
    active := false, tableFrames := Slots.replicate maxTableFrames none }

def setMapping (space : AddressSpace) (slot : Nat) (mapping : Option MappingInfo) :
    AddressSpace :=
  { space with mappings := space.mappings.set slot mapping }

def mapping (space : AddressSpace) (virtualAddress : Nat) : Option MappingInfo :=
  space.mappings.entries.find? (fun mapping => mapping.virtualAddress = virtualAddress)

def isDestroyed (space : AddressSpace) : Bool := space.rootFrame.isNone

end AddressSpace

/-- The first page at or below an address. -/
def pageOf (address : Nat) : Nat := address / pageSize * pageSize

/-- Whether a slot holds the mapping of a page. -/
def mapsPage (virtualAddress : Nat) (slot : Option MappingInfo) : Bool :=
  slot.any (fun mapping => mapping.virtualAddress = virtualAddress)

def validatePage (target : Machine) (virtualAddress : Nat) : Except Error Unit := do
  if virtualAddress % pageSize ≠ 0 then throw .unaligned
  if 2 ^ 64 ≤ virtualAddress + pageSize then throw .invalidAddress
  if virtualAddress < pageSize ∨ userLimit target < virtualAddress + pageSize then
    throw .invalidAddress

end Space

end Norx
