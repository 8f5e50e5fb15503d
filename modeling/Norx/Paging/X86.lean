import Norx.Paging.Walk

/-!
# Page Tables of the x86_64 Build

The user half of `arch/x86_64/paging.rs`. Physical memory is reached through
the direct map, which covers its first 16 MiB once it is set up.

## Main definitions

* `directMapPtr`, `zeroPhysicalPage`, `writePhysical`: Physical memory.
* `allocateUserTable`: A new table.
* `walker`: The walks.
* `userSpacePrepare`, `userSpaceReset`: The root table.
-/

namespace Norx

namespace Paging

namespace X86

open Fallible Space

def directMapBytes : UInt64 := 0x1000000
def ptePresent : UInt64 := 0x1
def pteWritable : UInt64 := 0x2
def pteUser : UInt64 := 0x4
/-- The bit of an entry that maps a large page, `1 << 7`. -/
def pteLarge : UInt64 := 0x80
def pteNx : UInt64 := 0x8000000000000000
def addressMask : UInt64 := 0x000ffffffffff000

def directMapPtr (h : Hardware) (physical : UInt64) : Option UInt64 :=
  if h.directMapReady = false ∨ directMapBytes ≤ physical then none else some physical

def zeroPhysicalPage (physical : UInt64) (h : Hardware) : Bool × Hardware :=
  match directMapPtr h physical with
  | none => (false, h)
  | some pointer => (true, h.zeroPage pointer)

def writePhysical (physical : UInt64) (offset : Nat) (bytes : List UInt8) (h : Hardware) :
    Bool × Hardware :=
  if 4096 ≤ offset ∨ 4096 - offset < bytes.length then (false, h)
  else match directMapPtr h (Word.saturatingAdd physical (UInt64.ofNat offset)) with
    | none => (false, h)
    | some pointer => (true, h.writeBytes pointer bytes)

def allocateUserTable : PagingM UInt64 := do
  let frame ← allocFrame
  if (← within (·.hardware) State.setHardware (act (zeroPhysicalPage frame))) = false then
    let _ ← freeFrame frame
    fail ()
  let slot ← lookup () (fun s => s.tables.position Option.isNone)
  modify (·.setTable slot frame)
  return frame

/-- The entry that leads to a table. -/
def link (frame : UInt64) : UInt64 := frame ||| ptePresent ||| pteWritable ||| pteUser

/-- The loop body of `user_space_map`. -/
def extend (table : UInt64) (index : Nat) : PagingM UInt64 := do
  let value ← read (·.hardware.entry table index)
  if value &&& ptePresent = 0 then
    let frame ← allocateUserTable
    writeEntry table index (link frame)
    lookup () (fun s => directMapPtr s.hardware frame)
  else
    if value &&& pteUser = 0 ∨ value &&& pteLarge ≠ 0 then fail ()
    lookup () (fun s => directMapPtr s.hardware (value &&& addressMask))

/-- The loop body of `user_space_unmap`. -/
def follow (table : UInt64) (index : Nat) : PagingM UInt64 := do
  let value ← read (·.hardware.entry table index)
  if value &&& ptePresent = 0 ∨ value &&& pteLarge ≠ 0 then fail ()
  lookup () (fun s => directMapPtr s.hardware (value &&& addressMask))

def leafFlags (flags : PageFlags) : UInt64 :=
  let bits := ptePresent ||| pteUser
  let bits := if flags.writable = true then bits ||| pteWritable else bits
  if flags.executable = false then bits ||| pteNx else bits

def walker : Walker where
  accepts mapping := mapping.virtualAddress % 4096 = 0 ∧ mapping.physicalFrame % 4096 = 0
  acceptsPage _ := true
  enter root := lookup () (fun s => directMapPtr s.hardware root)
  extend := extend
  follow := follow
  arrive table := pure table
  present value := value &&& ptePresent ≠ 0
  leaf mapping := mapping.physicalFrame ||| leafFlags mapping.flags

def userSpacePrepare (root : UInt64) (h : Hardware) : Bool × Hardware :=
  match directMapPtr h root with
  | none => (false, h)
  | some destination => (true, h.copyPage (h.tableBase &&& addressMask) destination)

def userSpaceReset (root : UInt64) (h : Hardware) : Hardware :=
  match directMapPtr h root with
  | none => h
  | some table => h.zeroPage table

end X86

end Paging

end Norx
