import Norx.Arch.Hardware
import Norx.Memory.Pool
import Norx.Space.Types

/-!
# Walking the Page Tables

The walks of `user_space_map` and `user_space_unmap`, which the two paging
modules share but for what a table entry looks like, when a pointer to a table
is checked and how a table is allocated. Those are the fields of a `Walker`;
each paging module fills them in.

The code sees the frame allocator, the hardware and the space's list of table
frames. A function that returns a `bool` is a program that fails when the
source returns `false`.

## Main definitions

* `allocFrame`, `freeFrame`: The frame allocator, from here.
* `Walker.userSpaceMap`, `Walker.userSpaceUnmap`: The walks.
-/

namespace Norx

namespace Paging

open Fallible Space

/-- What the paging code can reach. -/
structure State where
  frames : Memory.Held
  hardware : Hardware
  tables : Tables

/-- A program of the paging code. -/
abbrev PagingM := Fallible State Unit

namespace State

def setFrames (s : State) (frames : Memory.Held) : State := { s with frames }

def setHardware (s : State) (hardware : Hardware) : State := { s with hardware }

def setTable (s : State) (slot : Nat) (frame : UInt64) : State :=
  { s with tables := s.tables.set slot (some frame) }

end State

def allocFrame : PagingM UInt64 := do
  let found ← within (·.frames) State.setFrames (act Memory.Held.take)
  lookup () (fun _ => found)

def freeFrame (frame : UInt64) : PagingM Bool :=
  within (·.frames) State.setFrames (act (Memory.Held.give frame))

def writeEntry (table : UInt64) (index : Nat) (value : UInt64) : PagingM Unit :=
  modify (fun s => s.setHardware (s.hardware.setEntry table index value))

/-- The indices of a virtual address into the three upper tables. -/
def indices (virtualAddress : Nat) : List Nat :=
  [virtualAddress / 2 ^ 39 % 512, virtualAddress / 2 ^ 30 % 512, virtualAddress / 2 ^ 21 % 512]

/-- The index into the last table. -/
def lastIndex (virtualAddress : Nat) : Nat := virtualAddress / 2 ^ 12 % 512

/-- What the paging module of one processor brings to the walks. -/
structure Walker where
  /-- The checks before a mapping is entered. -/
  accepts : MappingInfo → Bool
  /-- The checks before one is taken out. -/
  acceptsPage : Nat → Bool
  /-- The pointer to the root table. -/
  enter : UInt64 → PagingM UInt64
  /-- One level down, with a new table where there is none. -/
  extend : UInt64 → Nat → PagingM UInt64
  /-- One level down along tables that exist. -/
  follow : UInt64 → Nat → PagingM UInt64
  /-- The pointer to the last table. -/
  arrive : UInt64 → PagingM UInt64
  /-- Whether an entry of the last table is in use. -/
  present : UInt64 → Bool
  /-- The entry of a mapping. -/
  leaf : MappingInfo → UInt64

namespace Walker

def userSpaceMap (w : Walker) (root : UInt64) (mapping : MappingInfo) : PagingM Unit := do
  if w.accepts mapping = false then fail ()
  let table ← w.enter root
  let table ← (indices mapping.virtualAddress).foldlM w.extend table
  let table ← w.arrive table
  let index := lastIndex mapping.virtualAddress
  if (← read (fun s => w.present (s.hardware.entry table index))) = true then fail ()
  writeEntry table index (w.leaf mapping)

def userSpaceUnmap (w : Walker) (root : UInt64) (virtualAddress : Nat) : PagingM Unit := do
  if w.acceptsPage virtualAddress = false then fail ()
  let table ← w.enter root
  let table ← (indices virtualAddress).foldlM w.follow table
  let table ← w.arrive table
  let index := lastIndex virtualAddress
  if (← read (fun s => w.present (s.hardware.entry table index))) = false then fail ()
  writeEntry table index 0

end Walker

end Paging

end Norx
