import Norx.Lib.Bytes

/-!
# Memory and Registers

What the page-table code sees of the machine: physical memory by byte, the
register that holds the root of the tables in use (`CR3` or `TTBR0_EL1`), and
the two static variables of the paging modules that decide what it does.

A pointer into physical memory, through the direct map on one processor and at
its own address on the other, is the physical address it points at. Flushing
the translation cache has no effect here.

## Main definitions

* `Hardware`: Memory, the table register and the paging modules' variables.
* `Hardware.entry`, `Hardware.setEntry`: A word of a table.
* `Hardware.zeroPage`, `Hardware.copyPage`: Whole pages.
-/

namespace Norx

structure Hardware where
  memory : Store
  /-- `CR3`, or `TTBR0_EL1`. -/
  tableBase : UInt64
  /-- `DIRECT_MAP_READY`. -/
  directMapReady : Bool
  /-- `KERNEL_TTBR0`. -/
  kernelTableBase : UInt64

namespace Hardware

def entry (h : Hardware) (table : UInt64) (index : Nat) : UInt64 :=
  UInt64.ofNat (leNat (h.memory.read (table.toNat + 8 * index) 8))

def setEntry (h : Hardware) (table : UInt64) (index : Nat) (value : UInt64) : Hardware :=
  { h with memory := h.memory.write (table.toNat + 8 * index) (leBytes 8 value.toNat) }

def zeroPage (h : Hardware) (frame : UInt64) : Hardware :=
  { h with memory := h.memory.fill frame.toNat 4096 0 }

def copyPage (h : Hardware) (source destination : UInt64) : Hardware :=
  { h with memory := h.memory.copy source.toNat destination.toNat 4096 }

def writeBytes (h : Hardware) (address : UInt64) (bytes : List UInt8) : Hardware :=
  { h with memory := h.memory.write address.toNat bytes }

end Hardware

end Norx
