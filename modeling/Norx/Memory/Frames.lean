import Norx.Lib.Loop
import Norx.Lib.Slots
import Norx.Lib.Word

/-!
# The Frame Allocator

The physical frame allocator of `memory.rs`. `init` goes through the available
regions of the boot memory map and records the whole pages of each that no
reserved region touches as ranges. `alloc_frame` hands out frames that were
returned before, last one first, and otherwise the next frame of the ranges,
which it goes through once, front to back, and never again.

The static variables of the source are the fields of `State`. Of the boot
information only the memory map is read, and its two arrays are lists of any
length with the number of their entries in use beside them. The loop that
carves the reserved regions out of an available one is bounded by fuel; that it
always ends is a result about it. Logging is left out.

## Main definitions

* `MemoryRegion`, `BootInfo`: The memory map.
* `Range`, `State`: What the allocator keeps.
* `alignUp`, `pushRange`, `scan`, `carve`, `addAvailable`, `init`: Reading the
  memory map.
* `allocFrame`, `freeFrame`: Handing out and taking back.
-/

namespace Norx

namespace Memory

def maxRanges : Nat := 64
def maxReturnedFrames : Nat := 128
def pageSize : UInt64 := 4096
def minFrame : UInt64 := 0x100000

structure MemoryRegion where
  base : UInt64
  length : UInt64
  deriving DecidableEq, Repr

structure BootInfo where
  memory : List MemoryRegion
  memoryLen : Nat
  reserved : List MemoryRegion
  reservedLen : Nat
  deriving DecidableEq, Repr

namespace BootInfo

/-- The available regions in use. -/
def available (info : BootInfo) : List MemoryRegion := info.memory.take info.memoryLen

/-- The reserved regions in use. -/
def reservations (info : BootInfo) : List MemoryRegion := info.reserved.take info.reservedLen

end BootInfo

structure Range where
  start : UInt64
  pages : UInt64
  deriving DecidableEq, Repr

namespace Range

def empty : Range := { start := 0, pages := 0 }

instance : Inhabited Range := ⟨empty⟩

def end_ (r : Range) : UInt64 := Word.saturatingAdd r.start (Word.saturatingMul r.pages pageSize)

end Range

structure State where
  ranges : Slots maxRanges Range
  rangeCount : Nat
  nextRange : Nat
  nextFrame : UInt64
  usablePages : UInt64
  allocatedFrames : UInt64
  skippedRanges : UInt64
  returnedFrames : Slots maxReturnedFrames UInt64
  returnedCount : Nat

/-- The static variables before `init`. -/
def State.initial : State :=
  { ranges := Slots.replicate maxRanges Range.empty, rangeCount := 0, nextRange := 0,
    nextFrame := 0, usablePages := 0, allocatedFrames := 0, skippedRanges := 0,
    returnedFrames := Slots.replicate maxReturnedFrames 0, returnedCount := 0 }

structure Summary where
  descriptors : Nat
  usablePages : UInt64
  skippedRanges : UInt64
  deriving DecidableEq, Repr

/-! ### Reading the memory map -/

def alignDown (value : UInt64) : UInt64 := value &&& ~~~ (pageSize - 1)

def alignUp (value : UInt64) : UInt64 :=
  match Word.checkedAdd value (pageSize - 1) with
  | some value => alignDown value
  | none => ~~~ (pageSize - 1)

def pushRange (start pages : UInt64) (s : State) : State :=
  if pages = 0 then s
  else
    let last := s.ranges.get (s.rangeCount - 1)
    if s.rangeCount ≠ 0 ∧ last.end_ = start then
      { s with
        ranges := s.ranges.set (s.rangeCount - 1)
          { last with pages := Word.saturatingAdd last.pages pages }
        usablePages := Word.saturatingAdd s.usablePages pages }
    else if s.rangeCount < maxRanges then
      { s with
        ranges := s.ranges.set s.rangeCount { start, pages }
        rangeCount := s.rangeCount + 1
        usablePages := Word.saturatingAdd s.usablePages pages }
    else { s with skippedRanges := Word.saturatingAdd s.skippedRanges 1 }

/-- One reserved region, seen from the cursor: it covers the cursor up to some
    point, or it ends the free stretch that starts there. -/
def scanReserved (cursor end_ : UInt64) (found : UInt64 × UInt64) (reserved : MemoryRegion) :
    UInt64 × UInt64 :=
  match Word.checkedAdd reserved.base reserved.length with
  | none => found
  | some reservedEnd =>
    if reservedEnd ≤ cursor ∨ end_ ≤ reserved.base then found
    else if reserved.base ≤ cursor then (found.1, max found.2 (min reservedEnd end_))
    else (min found.1 reserved.base, found.2)

/-- Where the next reserved region starts, and up to where the cursor is
    covered. -/
def scan (cursor end_ : UInt64) (reservations : List MemoryRegion) : UInt64 × UInt64 :=
  reservations.foldl (scanReserved cursor end_) (end_, cursor)

/-- One turn of the loop over an available region. -/
def carve (reservations : List MemoryRegion) (end_ : UInt64) (at_ : UInt64 × State) :
    UInt64 × State :=
  let cursor := at_.1
  let (next, coveredEnd) := scan cursor end_ reservations
  if cursor < coveredEnd then (alignUp coveredEnd, at_.2)
  else
    let availableEnd := alignDown (min next end_)
    let s := if cursor < availableEnd
      then pushRange cursor ((availableEnd - cursor) / pageSize) at_.2 else at_.2
    (alignUp (max availableEnd (Word.saturatingAdd cursor pageSize)), s)

def addAvailable (fuel : Nat) (info : BootInfo) (s : State) (region : MemoryRegion) :
    Option State :=
  match Word.checkedAdd region.base region.length with
  | none => some { s with skippedRanges := Word.saturatingAdd s.skippedRanges 1 }
  | some end_ =>
    let start := max region.base minFrame
    if end_ ≤ start then some s
    else
      let cursor := alignUp start
      let end_ := alignDown end_
      if end_ ≤ cursor then some s
      else (whileLoop (fun at_ => decide (at_.1 < end_)) (carve info.reservations end_) fuel
        (cursor, s)).map Prod.snd

def reset (s : State) : State :=
  { s with rangeCount := 0, nextRange := 0, nextFrame := 0, usablePages := 0, allocatedFrames := 0,
           skippedRanges := 0, returnedCount := 0 }

def summary (info : BootInfo) (s : State) : Summary :=
  { descriptors := info.memoryLen, usablePages := s.usablePages, skippedRanges := s.skippedRanges }

def init (fuel : Nat) (info : BootInfo) (s : State) : Option (Summary × State) := do
  let s ← info.available.foldlM (addAvailable fuel info) (reset s)
  return (summary info s, s)

/-! ### Handing out and taking back -/

/-- Move the position up to the start of a range. -/
def enterRange (range : Range) (s : State) : State :=
  if s.nextFrame = 0 ∨ s.nextFrame < range.start then { s with nextFrame := range.start } else s

/-- Move the position past the frame it is at. -/
def passFrame (s : State) : State :=
  { s with nextFrame := s.nextFrame + pageSize
           allocatedFrames := Word.saturatingAdd s.allocatedFrames 1 }

/-- The loop over the ranges from the current one on, for at most as many turns
    as there are ranges left. -/
def allocRange : Nat → State → Option UInt64 × State
  | 0, s => (none, s)
  | turns + 1, s =>
    if s.nextRange < s.rangeCount then
      let range := s.ranges.get s.nextRange
      let s := enterRange range s
      if s.nextFrame < range.end_ then (some s.nextFrame, passFrame s)
      else allocRange turns { s with nextRange := s.nextRange + 1 }
    else (none, s)

def allocFrame (s : State) : Option UInt64 × State :=
  if s.returnedCount ≠ 0 then
    (some (s.returnedFrames.get (s.returnedCount - 1)),
      { s with returnedCount := s.returnedCount - 1 })
  else allocRange (s.rangeCount - s.nextRange) s

def freeFrame (frame : UInt64) (s : State) : Bool × State :=
  if frame < minFrame ∨ frame % pageSize ≠ 0 then (false, s)
  else if s.returnedCount = maxReturnedFrames ∨ frame ∈ s.returnedFrames.leading s.returnedCount
  then (false, s)
  else (true, { s with
    returnedFrames := s.returnedFrames.set s.returnedCount frame
    returnedCount := s.returnedCount + 1 })

end Memory

end Norx
