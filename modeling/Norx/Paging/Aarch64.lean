import Norx.Paging.Walk

/-!
# Page Tables of the aarch64 Build

The user half of `arch/aarch64/paging.rs`. Physical memory is reached at its
own address, below 2^48. A user root starts as a copy of the root in use, so it
shares the tables below it with the kernel; `owned_table` keeps the walk of
`user_space_map` out of them. The count of tables, which nothing reads but a
status report, is left out.

## Main definitions

* `physicalPtr`, `zeroPhysicalPage`, `writePhysical`: Physical memory.
* `allocateTable`, `ownedTable`: Tables.
* `walker`: The walks.
* `userSpacePrepare`, `userSpaceReset`: The root table.
-/

namespace Norx

namespace Paging

namespace Aarch64

open Fallible Space

def addressMask : UInt64 := 0x0000fffffffff000
def physicalMask : UInt64 := 0x0000ffffffffffff
def valid : UInt64 := 0x1
def tableOrPage : UInt64 := 0x2
def attrNormal : UInt64 := 0x4
def innerShareable : UInt64 := 0x300
def accessFlag : UInt64 := 0x400
def apUserRw : UInt64 := 0x40
def apUserRo : UInt64 := 0xc0
def pxn : UInt64 := 0x20000000000000
def uxn : UInt64 := 0x40000000000000

def physicalPtr (address : UInt64) : Option UInt64 :=
  if address &&& ~~~ physicalMask = 0 then some address else none

def tablePtr (frame : UInt64) : Option UInt64 := physicalPtr frame

def zeroPhysicalPage (physical : UInt64) (h : Hardware) : Bool × Hardware :=
  match physicalPtr physical with
  | none => (false, h)
  | some pointer => (true, h.zeroPage pointer)

def writePhysical (physical : UInt64) (offset : Nat) (bytes : List UInt8) (h : Hardware) :
    Bool × Hardware :=
  if 4096 < offset ∨ 4096 - offset < bytes.length then (false, h)
  else match physicalPtr (Word.saturatingAdd physical (UInt64.ofNat offset)) with
    | none => (false, h)
    | some pointer => (true, h.writeBytes pointer bytes)

def copyTable (source destination : UInt64) (h : Hardware) : Bool × Hardware :=
  match tablePtr source, tablePtr destination with
  | some source, some destination => (true, h.copyPage source destination)
  | _, _ => (false, h)

def allocateTable : PagingM UInt64 := do
  let slot ← lookup () (fun s => s.tables.position Option.isNone)
  let frame ← allocFrame
  if (← within (·.hardware) State.setHardware (act (zeroPhysicalPage frame))) = false then
    let _ ← freeFrame frame
    fail ()
  modify (·.setTable slot frame)
  return frame

def ownedTable (tables : Tables) (frame : UInt64) : Bool :=
  tables.any (fun entry => entry = some frame)

/-- The entry that leads to a table. -/
def link (frame : UInt64) : UInt64 := frame ||| valid ||| tableOrPage

/-- The loop body of `user_space_map`. -/
def extend (table : UInt64) (index : Nat) : PagingM UInt64 := do
  let table ← lookup () (fun _ => tablePtr table)
  let descriptor ← read (·.hardware.entry table index)
  if descriptor &&& valid ≠ 0 then
    if descriptor &&& tableOrPage ≠ tableOrPage then fail ()
    let next := descriptor &&& addressMask
    if (← read (fun s => ownedTable s.tables next)) = false then fail ()
    return next
  else
    let next ← allocateTable
    writeEntry table index (link next)
    return next

/-- The loop body of `user_space_unmap`. -/
def follow (table : UInt64) (index : Nat) : PagingM UInt64 := do
  let table ← lookup () (fun _ => tablePtr table)
  let descriptor ← read (·.hardware.entry table index)
  if descriptor &&& (valid ||| tableOrPage) ≠ valid ||| tableOrPage then fail ()
  return descriptor &&& addressMask

def leafFlags (flags : PageFlags) : UInt64 :=
  let bits := valid ||| tableOrPage ||| attrNormal ||| innerShareable ||| accessFlag ||| pxn
  let bits := bits ||| (if flags.writable = true then apUserRw else apUserRo)
  if flags.executable = false then bits ||| uxn else bits

def walker : Walker where
  accepts mapping := mapping.flags.user ∧ mapping.virtualAddress % 4096 = 0 ∧
    mapping.virtualAddress < userLimit .aarch64 ∧ mapping.physicalFrame % 4096 = 0
  acceptsPage virtualAddress := virtualAddress % 4096 = 0
  enter root := pure root
  extend := extend
  follow := follow
  arrive table := lookup () (fun _ => tablePtr table)
  present descriptor := descriptor &&& valid ≠ 0
  leaf mapping := (mapping.physicalFrame &&& addressMask) ||| leafFlags mapping.flags

def userSpacePrepare (root : UInt64) (h : Hardware) : Bool × Hardware :=
  let current := h.tableBase &&& addressMask
  if current = 0 ∨ root = 0 ∨ root = current then (false, h)
  else match copyTable current root h with
    | (false, h) => (false, h)
    | (true, h) => (true, { h with kernelTableBase := current })

def userSpaceReset (root : UInt64) (h : Hardware) : Hardware :=
  if h.tableBase &&& addressMask = root ∧ h.kernelTableBase ≠ 0
  then { h with tableBase := h.kernelTableBase } else h

end Aarch64

end Paging

end Norx
