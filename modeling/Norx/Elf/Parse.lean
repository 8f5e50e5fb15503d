import Norx.Arch.Target
import Norx.Lib.Bytes
import Norx.Lib.Checked
import Norx.Lib.Slots

/-!
# Parsing an ELF Image

The parser of `elf.rs`: from a byte image, a machine and a load bias to a plan
of the segments to load. The image comes from outside, so every field is
checked before it is used. What the source computes without a check (indexing,
plain sums and differences) can panic here; that it does not is a result.

Words and sizes are natural numbers. The target decides the limit of user
addresses; the machine the image must be for is an argument of its own.

## Main definitions

* `Error`, `SegmentFlags`, `SegmentPlan`, `LoadPlan`: The plan and what can be
  wrong with an image.
* `readU16`, `readU32`, `readU64`: Reading a field.
* `readHeader`, `addSegment`, `parse`: The parser.
* `LoadPlan.segment`, `LoadPlan.containsAddress`, `LoadPlan.fileOffset`: Reading the plan.
-/

namespace Norx

namespace Elf

open Checked

def elfHeaderSize : Nat := 64
def programHeaderSize : Nat := 56
def maxLoadSegments : Nat := 8
def maxLoadPages : Nat := 256
def etExec : Nat := 2
def etDyn : Nat := 3
def ptLoad : Nat := 1
def pfX : Nat := 1
def pfW : Nat := 2

inductive Error where
  | truncated
  | badMagic
  | unsupportedClass
  | unsupportedEndian
  | badVersion
  | wrongType
  | wrongMachine
  | badHeaderSize
  | badProgramHeaderSize
  | programHeaderOverflow
  | tooManySegments
  | noLoadSegments
  | invalidAlignment
  | invalidRange
  | fileRangeOverflow
  | fileSizeExceedsMemory
  | segmentOverlap
  | writeExecute
  | invalidEntry
  | tooManyStrings
  | interiorNul
  | invalidStack
  | stackOverflow
  | interpreterTooLong
  | invalidInterpreter
  deriving DecidableEq, Repr

structure SegmentFlags where
  readable : Bool
  writable : Bool
  executable : Bool
  deriving DecidableEq, Repr

def SegmentFlags.fromRaw (raw : Nat) : SegmentFlags :=
  { readable := decide (raw &&& 4 ≠ 0), writable := decide (raw &&& pfW ≠ 0),
    executable := decide (raw &&& pfX ≠ 0) }

structure SegmentPlan where
  virtualStart : Nat
  virtualEnd : Nat
  fileOffset : Nat
  fileSize : Nat
  memorySize : Nat
  zeroFill : Nat
  flags : SegmentFlags
  deriving DecidableEq, Repr

structure LoadPlan where
  base : Nat
  entry : Nat
  segmentCount : Nat
  totalPages : Nat
  segments : Slots maxLoadSegments (Option SegmentPlan)

/-! ### Reading fields -/

/-- A number of `n` bytes at an offset of the image. -/
def readLe (n : Nat) (image : List UInt8) (offset : Nat) : Checked Error Nat := do
  let end_ ← add offset n
  if end_ ≤ image.length then pure (leNat ((image.drop offset).take n))
  else fail .truncated

def readU16 (image : List UInt8) (offset : Nat) : Checked Error Nat := readLe 2 image offset
def readU32 (image : List UInt8) (offset : Nat) : Checked Error Nat := readLe 4 image offset
def readU64 (image : List UInt8) (offset : Nat) : Checked Error Nat := readLe 8 image offset

def usizeFromU64 (value : Nat) : Checked Error Nat :=
  if 2 ^ 64 - 1 < value then fail .invalidRange else pure value

def alignDown (value alignment : Nat) : Nat := value / alignment * alignment

def alignUp (value alignment : Nat) : Option Nat :=
  (Usize.checkedAdd value (alignment - 1)).map fun value => alignDown value alignment

def isPowerOfTwo (value : Nat) : Bool := decide (value ≠ 0 ∧ value &&& (value - 1) = 0)

/-! ### The parser -/

/-- What the rest of the parser needs from the file header. -/
structure Header where
  entryRaw : Nat
  programHeaderOffset : Nat
  programHeaderCount : Nat

/-- The checks of the file header. -/
def readHeader (image : List UInt8) (machine : Machine) (loadBias : Nat) :
    Checked Error Header := do
  reject (image.length < elfHeaderSize) .truncated
  let magic ← slice image 0 4
  reject (magic ≠ [0x7f, 0x45, 0x4c, 0x46]) .badMagic
  let class_ ← index image 4
  reject (class_ ≠ 2) .unsupportedClass
  let endian ← index image 5
  reject (endian ≠ 1) .unsupportedEndian
  let version ← index image 6
  reject (version ≠ 1) .badVersion
  let objectType ← readU16 image 16
  reject (objectType ≠ etExec ∧ objectType ≠ etDyn) .wrongType
  let objectMachine ← readU16 image 18
  reject (objectMachine ≠ machine.id) .wrongMachine
  let headerSize ← readU16 image 52
  reject (headerSize ≠ elfHeaderSize) .badHeaderSize
  let entrySize ← readU16 image 54
  reject (entrySize ≠ programHeaderSize) .badProgramHeaderSize
  reject (objectType = etExec ∧ loadBias ≠ 0) .invalidRange
  reject (objectType = etDyn ∧ loadBias = 0) .invalidRange
  reject (loadBias % pageSize ≠ 0) .invalidAlignment
  let entryRaw ← readU64 image 24
  let offsetRaw ← readU64 image 32
  let programHeaderOffset ← usizeFromU64 offsetRaw
  let programHeaderCount ← readU16 image 56
  reject (programHeaderCount = 0 ∨ maxLoadSegments * 4 < programHeaderCount) .tooManySegments
  let programHeaderBytes ← require .programHeaderOverflow
    (Usize.checkedMul programHeaderCount programHeaderSize)
  let programHeaderEnd ← require .programHeaderOverflow
    (Usize.checkedAdd programHeaderOffset programHeaderBytes)
  reject (image.length < programHeaderEnd) .truncated
  return { entryRaw, programHeaderOffset, programHeaderCount }

def SegmentPlan.overlaps (segment previous : SegmentPlan) : Bool :=
  decide (segment.virtualStart < previous.virtualEnd ∧ previous.virtualStart < segment.virtualEnd)

/-- The checks of one loadable segment, whose program header is at an offset of
    the image. -/
def readSegment (target : Machine) (image : List UInt8) (loadBias offset : Nat) :
    Checked Error SegmentPlan := do
  let flagsRaw ← readU32 image (← add offset 4)
  let fileOffset ← readU64 image (← add offset 8)
  let virtualRaw ← readU64 image (← add offset 16)
  let fileSize ← readU64 image (← add offset 32)
  let memorySize ← readU64 image (← add offset 40)
  let alignment ← readU64 image (← add offset 48)
  reject (memorySize < fileSize) .fileSizeExceedsMemory
  reject (1 < alignment ∧ isPowerOfTwo alignment = false) .invalidAlignment
  reject (fileOffset % pageSize ≠ virtualRaw % pageSize) .invalidAlignment
  let fileEnd ← require .fileRangeOverflow (Usize.checkedAdd fileOffset fileSize)
  reject (image.length < fileEnd) .fileRangeOverflow
  let virtualRaw ← usizeFromU64 virtualRaw
  let virtualStart ← require .invalidRange
    (Usize.checkedAdd loadBias (alignDown virtualRaw pageSize))
  let memorySizeRaw ← usizeFromU64 memorySize
  let memoryEndRaw ← require .invalidRange (Usize.checkedAdd virtualRaw memorySizeRaw)
  let memoryEnd ← require .invalidRange (alignUp memoryEndRaw pageSize)
  let virtualEnd ← require .invalidRange (Usize.checkedAdd loadBias memoryEnd)
  reject
    (virtualStart < pageSize ∨ virtualEnd ≤ virtualStart ∨ userLimit target < virtualEnd)
    .invalidRange
  let flags := SegmentFlags.fromRaw flagsRaw
  reject (flags.writable = true ∧ flags.executable = true) .writeExecute
  let zeroFill ← sub memorySize fileSize
  return { virtualStart, virtualEnd, fileOffset, fileSize, memorySize, zeroFill, flags }

/-- Put a segment into the plan. -/
def LoadPlan.push (plan : LoadPlan) (segment : SegmentPlan) : Checked Error LoadPlan := do
  reject (plan.segments.any fun slot => slot.any segment.overlaps) .segmentOverlap
  let bytes ← sub segment.virtualEnd segment.virtualStart
  let totalPages ← require .invalidRange (Usize.checkedAdd plan.totalPages (bytes / pageSize))
  reject (maxLoadPages < totalPages) .invalidRange
  if plan.segmentCount < maxLoadSegments then
    return { plan with
      totalPages
      segments := plan.segments.set plan.segmentCount (some segment)
      segmentCount := plan.segmentCount + 1 }
  else throw .panic

/-- One turn of the loop over the program headers. -/
def addSegment (target : Machine) (image : List UInt8) (loadBias programHeaderOffset : Nat)
    (plan : LoadPlan) (index : Nat) : Checked Error LoadPlan := do
  let offset ← add programHeaderOffset (← mul index programHeaderSize)
  let kind ← readU32 image offset
  if kind ≠ ptLoad then return plan
  else
    reject (plan.segmentCount = maxLoadSegments) .tooManySegments
    let segment ← readSegment target image loadBias offset
    plan.push segment

/-- The segment is executable and has the address in it. -/
def SegmentPlan.executes (address : Nat) (segment : SegmentPlan) : Bool :=
  segment.flags.executable && decide (segment.virtualStart ≤ address) &&
    decide (address < segment.virtualEnd)

def parse (target : Machine) (image : List UInt8) (machine : Machine) (loadBias : Nat) :
    Checked Error LoadPlan := do
  let header ← readHeader image machine loadBias
  let entryRaw ← usizeFromU64 header.entryRaw
  let entry ← require .invalidRange (Usize.checkedAdd loadBias entryRaw)
  let plan ← (List.range header.programHeaderCount).foldlM
    (addSegment target image loadBias header.programHeaderOffset)
    { base := loadBias, entry, segmentCount := 0, totalPages := 0,
      segments := Slots.replicate maxLoadSegments none }
  reject (plan.segmentCount = 0) .noLoadSegments
  reject (plan.segments.any (fun slot => slot.any (SegmentPlan.executes plan.entry)) = false)
    .invalidEntry
  return plan

/-! ### Reading the plan -/

namespace LoadPlan

def segment (plan : LoadPlan) (index : Nat) : Option SegmentPlan := plan.segments.get index

/-- The bytes from an address on are in one segment. -/
def containsAddress (plan : LoadPlan) (virtualAddress length : Nat) : Bool :=
  match Usize.checkedAdd virtualAddress length with
  | none => false
  | some end_ => plan.segments.entries.any fun segment =>
    decide (segment.virtualStart ≤ virtualAddress ∧ end_ ≤ segment.virtualEnd)

/-- Where in the file an address of one segment is. -/
def offsetIn (virtualAddress end_ : Nat) (segment : SegmentPlan) : Option Nat := do
  let fileEnd ← Usize.checkedAdd segment.virtualStart segment.fileSize
  if virtualAddress < segment.virtualStart ∨ fileEnd < end_ then none
  else Usize.checkedAdd segment.fileOffset (virtualAddress - segment.virtualStart)

def fileOffset (plan : LoadPlan) (virtualAddress length : Nat) : Option Nat := do
  let end_ ← Usize.checkedAdd virtualAddress length
  plan.segments.entries.findSome? (offsetIn virtualAddress end_)

end LoadPlan

end Elf

end Norx
