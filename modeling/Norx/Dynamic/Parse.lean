import Norx.Elf.Parse

/-!
# Parsing the Dynamic Section

The parser of `dynamic.rs`: from an image and the plan of its segments to a plan for
linking it, with its tables, the names of the libraries it needs and its
relocations. The tables are given by virtual addresses, which the plan of the
segments turns into offsets of the image.

As in the parser of the file, what the source computes without a check can panic
here. The walk along a chain of the hash table is a loop without a bound in the
source; here it has as many turns as the check inside it allows, and it panics if
they do not suffice.

## Main definitions

* `Error`, `Table`, `Symbol`, `Relocation`, `TlsPlan`, `DynamicPlan`: The plan and
  what can be wrong with an image.
* `table`, `fileSliceAt`, `stringAt`: Reading what the plan of the segments locates.
* `sysvSymbolCount`, `gnuSymbolCount`: How many symbols there are.
* `appendRelocations`, `parseTls`, `parse`: The parser.
* `DynamicPlan.needed`, `DynamicPlan.soname`, `DynamicPlan.lookupSymbol`,
  `DynamicPlan.relativeValue`, `DynamicPlan.relocationValue`: Reading the plan.
-/

namespace Norx

namespace Dynamic

open Checked
open Elf (LoadPlan)

def elfHeaderSize : Nat := 64
def programHeaderSize : Nat := 56
def ptDynamic : Nat := 2
def ptTls : Nat := 7
def etDyn : Nat := 3
def dtNull : Nat := 0
def dtNeeded : Nat := 1
def dtPltrelsz : Nat := 2
def dtHash : Nat := 4
def dtStrtab : Nat := 5
def dtSymtab : Nat := 6
def dtRela : Nat := 7
def dtRelasz : Nat := 8
def dtRelaent : Nat := 9
def dtStrsz : Nat := 10
def dtSyment : Nat := 11
def dtSoname : Nat := 14
def dtRel : Nat := 17
def dtRelsz : Nat := 18
def dtRelent : Nat := 19
def dtPltrel : Nat := 20
def dtJmprel : Nat := 23
def dtGnuHash : Nat := 0x6ffffef5
def dtRelaFormat : Nat := 7
def maxDynamicEntries : Nat := 128
def maxNeeded : Nat := 8
def maxRelocations : Nat := 256
def maxSymbols : Nat := 256
def maxStringTable : Nat := 16 * 1024
def maxTlsBytes : Nat := 64 * 1024
def maxGnuHashBuckets : Nat := 256
def maxGnuHashBloom : Nat := 256
def relaSize : Nat := 24
def symbolSize : Nat := 24

inductive Error where
  | truncated
  | wrongType
  | wrongMachine
  | programHeaderOverflow
  | missingDynamicTerminator
  | duplicateDynamicSegment
  | invalidTable
  | tableTooLarge
  | missingStringTable
  | missingSymbolHash
  | invalidString
  | invalidSymbolIndex
  | invalidRelocationTarget
  | unsupportedRelocationFormat
  | unsupportedRelocation
  | symbolRequired
  | invalidRelocation
  | invalidTls
  | tooManyNeeded
  | invalidLibraryName
  | missingDependency
  deriving DecidableEq, Repr

structure Table where
  virtualAddress : Nat
  fileOffset : Nat
  size : Nat
  entrySize : Nat
  deriving DecidableEq, Repr

structure Symbol where
  nameOffset : Nat
  value : Nat
  size : Nat
  info : UInt8
  defined : Bool
  deriving DecidableEq, Repr

structure Relocation where
  address : Nat
  symbol : Nat
  kind : Nat
  addend : Int
  deriving DecidableEq, Repr, Inhabited

structure TlsPlan where
  virtualAddress : Nat
  fileOffset : Nat
  fileSize : Nat
  memorySize : Nat
  alignment : Nat
  deriving DecidableEq, Repr

structure DynamicPlan where
  machine : Machine
  base : Nat
  dynamic : Option Table
  strings : Option Table
  symbols : Option Table
  symbolCount : Nat
  neededCount : Nat
  needed : Slots maxNeeded Nat
  sonameOffset : Option Nat
  relocationCount : Nat
  relocations : Slots maxRelocations Relocation
  tls : Option TlsPlan

/-! ### Reading fields -/

/-- A number of `n` bytes at an offset of a slice. -/
def readLe (n : Nat) (bytes : List UInt8) (offset : Nat) : Checked Error Nat := do
  let end_ ← add offset n
  let field ← require .truncated (getRange bytes offset end_)
  return leNat field

def readU16 (bytes : List UInt8) (offset : Nat) : Checked Error Nat := readLe 2 bytes offset
def readU32 (bytes : List UInt8) (offset : Nat) : Checked Error Nat := readLe 4 bytes offset
def readU64 (bytes : List UInt8) (offset : Nat) : Checked Error Nat := readLe 8 bytes offset

/-- The signed number with the same bits. -/
def signed (value : Nat) : Int := if value < 2 ^ 63 then value else (value : Int) - 2 ^ 64

def readI64 (bytes : List UInt8) (offset : Nat) : Checked Error Int := do
  return signed (← readU64 bytes offset)

/-- A conversion to a word of so many bits. -/
def tryFrom (bits : Nat) (e : Error) (value : Nat) : Checked Error Nat :=
  if value < 2 ^ bits then pure value else fail e

def usizeFrom (e : Error) (value : Nat) : Checked Error Nat := tryFrom 64 e value

/-- An unbiased address, at the base the image is loaded at. -/
def rebase (plan : LoadPlan) (e : Error) (virtualAddress : Nat) : Checked Error Nat := do
  let address ← usizeFrom e virtualAddress
  require e (Usize.checkedAdd plan.base address)

def addSigned (base : Nat) (addend : Int) : Option Nat :=
  if 0 ≤ addend then Usize.checkedAdd base addend.toNat
  else if addend.natAbs ≤ base then some (base - addend.natAbs) else none

/-! ### What the plan of the segments locates -/

def table (image : List UInt8) (plan : LoadPlan) (virtualAddress size entrySize : Nat) :
    Checked Error Table := do
  let size ← usizeFrom .tableTooLarge size
  reject (maxStringTable < size ∨ (entrySize ≠ 1 ∧ size % entrySize ≠ 0)) .tableTooLarge
  let virtualAddress ← rebase plan .invalidTable virtualAddress
  let fileOffset ← require .invalidTable (plan.fileOffset virtualAddress size)
  let end_ ← require .invalidTable (Usize.checkedAdd fileOffset size)
  let _ ← require .truncated (getRange image fileOffset end_)
  return { virtualAddress, fileOffset, size, entrySize }

def fileSliceAt (image : List UInt8) (plan : LoadPlan) (virtualAddress size : Nat) :
    Checked Error (List UInt8) := do
  let address ← rebase plan .invalidTable virtualAddress
  let offset ← require .invalidTable (plan.fileOffset address size)
  let end_ ← require .invalidTable (Usize.checkedAdd offset size)
  require .truncated (getRange image offset end_)

def stringAt (image : List UInt8) (table : Table) (offset : Nat) : Checked Error (List UInt8) := do
  reject (table.size ≤ offset) .invalidString
  let start ← require .invalidString (Usize.checkedAdd table.fileOffset offset)
  let tableEnd ← add table.fileOffset table.size
  let bytes ← require .truncated (getRange image start tableEnd)
  let end_ ← require .invalidString (bytes.findIdx? (· == 0))
  slice bytes 0 end_

/-! ### Symbols -/

def sysvSymbolCount (image : List UInt8) (plan : LoadPlan) (address : Nat) :
    Checked Error Nat := do
  let header ← fileSliceAt image plan address 8
  let bucketCount ← usizeFrom .tableTooLarge (← readU32 header 0)
  let symbolCount ← usizeFrom .tableTooLarge (← readU32 header 4)
  reject (maxSymbols < symbolCount) .tableTooLarge
  let words ← require .tableTooLarge (Usize.checkedAdd bucketCount symbolCount)
  let bytes ← require .tableTooLarge (Usize.checkedMul words 4)
  let size ← require .tableTooLarge (Usize.checkedAdd 8 bytes)
  let _ ← fileSliceAt image plan address size
  return symbolCount

/-- The walk along one chain of the hash table. -/
def gnuChain (image : List UInt8) (plan : LoadPlan) (chainsAddress symbolOffset : Nat) :
    Nat → Nat → Nat → Checked Error Nat
  | 0, _, _ => throw .panic
  | fuel + 1, index, symbolCount => do
    let chainIndex ← require .tableTooLarge
      (if symbolOffset ≤ index then some (index - symbolOffset) else none)
    reject (maxSymbols ≤ chainIndex) .tableTooLarge
    let offset ← require .tableTooLarge (Usize.checkedMul chainIndex 4)
    let chainAddress ← require .tableTooLarge (Usize.checkedAdd chainsAddress offset)
    let chain ← fileSliceAt image plan chainAddress 4
    let value ← readU32 chain 0
    let symbolCount := max symbolCount (min (index + 1) (2 ^ 64 - 1))
    if value % 2 ≠ 0 then return symbolCount
    else
      let index ← require .tableTooLarge (Usize.checkedAdd index 1)
      gnuChain image plan chainsAddress symbolOffset fuel index symbolCount

/-- One bucket of the hash table. -/
def gnuBucket (image : List UInt8) (plan : LoadPlan)
    (address bucketsOffset chainsAddress symbolOffset symbolCount bucket : Nat) :
    Checked Error Nat := do
  let bucketOffset ← add bucketsOffset (← mul bucket 4)
  let bucketBytes ← fileSliceAt image plan (← add address bucketOffset) 4
  let index ← usizeFrom .tableTooLarge (← readU32 bucketBytes 0)
  if index < symbolOffset then return symbolCount
  else gnuChain image plan chainsAddress symbolOffset (maxSymbols + 1) index symbolCount

def gnuSymbolCount (image : List UInt8) (plan : LoadPlan) (address : Nat) :
    Checked Error Nat := do
  let header ← fileSliceAt image plan address 16
  let bucketCount ← usizeFrom .tableTooLarge (← readU32 header 0)
  let symbolOffset ← usizeFrom .tableTooLarge (← readU32 header 4)
  let bloomSize ← usizeFrom .tableTooLarge (← readU32 header 8)
  reject (maxGnuHashBuckets < bucketCount ∨ bloomSize = 0 ∨ maxGnuHashBloom < bloomSize)
    .tableTooLarge
  let bloomBytes ← require .tableTooLarge (Usize.checkedMul bloomSize 8)
  let bucketsOffset ← require .tableTooLarge (Usize.checkedAdd 16 bloomBytes)
  let bucketBytes ← require .tableTooLarge (Usize.checkedMul bucketCount 4)
  let bucketsEnd ← require .tableTooLarge (Usize.checkedAdd bucketsOffset bucketBytes)
  let _ ← fileSliceAt image plan address bucketsEnd
  let chainsAddress ← require .tableTooLarge
    ((Usize.checkedAdd address bucketsOffset).bind fun value => Usize.checkedAdd value bucketBytes)
  (List.range bucketCount).foldlM
    (gnuBucket image plan address bucketsOffset chainsAddress symbolOffset) 0

/-! ### Relocations -/

def supportedRelocation (machine : Machine) (kind : Nat) : Bool :=
  match machine with
  | .x86_64 => kind ∈ [1, 6, 7, 8]
  | .aarch64 => kind ∈ [257, 1025, 1026, 1027]

def relativeKind : Machine → Nat
  | .x86_64 => 8
  | .aarch64 => 1027

def Relocation.kindIsSymbolic (relocation : Relocation) (machine : Machine) : Bool :=
  match machine with
  | .x86_64 => relocation.kind ∈ [1, 6, 7]
  | .aarch64 => relocation.kind ∈ [257, 1025, 1026]

/-- The relocations read so far. -/
structure Relocations where
  table : Slots maxRelocations Relocation
  count : Nat

def Relocations.empty : Relocations :=
  { table := Slots.replicate maxRelocations { address := 0, symbol := 0, kind := 0, addend := 0 }
    count := 0 }

def Relocations.push (relocations : Relocations) (relocation : Relocation) :
    Checked Error Relocations :=
  if relocations.count < maxRelocations then
    return { table := relocations.table.set relocations.count relocation,
             count := relocations.count + 1 }
  else throw .panic

/-- One entry of a table of relocations. -/
def readRelocation (plan : LoadPlan) (machine : Machine) (symbolCount : Nat) (entry : List UInt8) :
    Checked Error Relocation := do
  let target ← rebase plan .invalidRelocationTarget (← readU64 entry 0)
  reject (plan.containsAddress target 8 = false) .invalidRelocationTarget
  let info ← readU64 entry 8
  let symbol ← tryFrom 32 .invalidSymbolIndex (info / 2 ^ 32)
  reject (symbolCount ≤ symbol ∧ symbol ≠ 0) .invalidSymbolIndex
  let kind ← tryFrom 32 .unsupportedRelocation (info % 2 ^ 32)
  reject (supportedRelocation machine kind = false) .unsupportedRelocation
  let addend ← readI64 entry 16
  return { address := target, symbol, kind, addend }

/-- One turn of the loop of `append_relocations`. -/
def appendRelocation (plan : LoadPlan) (machine : Machine) (symbolCount : Nat)
    (table : List UInt8) (relocations : Relocations) (index : Nat) : Checked Error Relocations := do
  reject (relocations.count = maxRelocations) .tableTooLarge
  let start ← mul index relaSize
  let end_ ← mul (← add index 1) relaSize
  let entry ← slice table start end_
  relocations.push (← readRelocation plan machine symbolCount entry)

def appendRelocations (image : List UInt8) (plan : LoadPlan) (machine : Machine)
    (symbolCount : Nat) (relocations : Relocations) (address size entrySize : Nat) :
    Checked Error Relocations := do
  let entrySize ← usizeFrom .tableTooLarge entrySize
  let size ← usizeFrom .tableTooLarge size
  reject (entrySize ≠ relaSize ∨ size % relaSize ≠ 0) .unsupportedRelocationFormat
  let table ← fileSliceAt image plan address size
  (List.range (size / relaSize)).foldlM (appendRelocation plan machine symbolCount table) relocations

/-! ### The program headers -/

structure ProgramHeader where
  kind : Nat
  fileOffset : Nat
  virtualAddress : Nat
  fileSize : Nat
  memorySize : Nat
  alignment : Nat

def parseTls (image : List UInt8) (plan : LoadPlan) (header : ProgramHeader) :
    Checked Error TlsPlan := do
  let fileSize ← usizeFrom .invalidTls header.fileSize
  let memorySize ← usizeFrom .invalidTls header.memorySize
  let alignment ← usizeFrom .invalidTls header.alignment
  reject (memorySize < fileSize ∨ maxTlsBytes < memorySize ∨
    (1 < alignment ∧ Elf.isPowerOfTwo alignment = false)) .invalidTls
  let fileOffset ← usizeFrom .invalidTls header.fileOffset
  reject (((Usize.checkedAdd fileOffset fileSize).bind (getRange image fileOffset)) = none)
    .invalidTls
  let virtualAddress ← rebase plan .invalidTls header.virtualAddress
  reject (plan.containsAddress virtualAddress memorySize = false) .invalidTls
  return { virtualAddress, fileOffset, fileSize, memorySize, alignment }

/-- The two headers the parser looks for. -/
structure Headers where
  dynamic : Option ProgramHeader
  tls : Option TlsPlan

def readProgramHeader (image : List UInt8) (offset : Nat) : Checked Error ProgramHeader := do
  let kind ← readU32 image offset
  let fileOffset ← readU64 image (← add offset 8)
  let virtualAddress ← readU64 image (← add offset 16)
  let fileSize ← readU64 image (← add offset 32)
  let memorySize ← readU64 image (← add offset 40)
  let alignment ← readU64 image (← add offset 48)
  return { kind, fileOffset, virtualAddress, fileSize, memorySize, alignment }

/-- One turn of the loop over the program headers. -/
def readHeader (image : List UInt8) (plan : LoadPlan) (programHeaderOffset : Nat)
    (headers : Headers) (index : Nat) : Checked Error Headers := do
  let offset ← add programHeaderOffset (← mul index programHeaderSize)
  let header ← readProgramHeader image offset
  if header.kind = ptDynamic then
    reject (headers.dynamic.isSome = true) .duplicateDynamicSegment
    return { headers with dynamic := some header }
  else if header.kind = ptTls then
    let tls ← parseTls image plan header
    return { headers with tls := some tls }
  else return headers

/-! ### The tags -/

structure Tags where
  stringAddress : Option Nat
  stringSize : Option Nat
  symbolAddress : Option Nat
  symbolEntrySize : Option Nat
  hashAddress : Option Nat
  gnuHashAddress : Option Nat
  relaAddress : Option Nat
  relaSize : Option Nat
  relaEntrySize : Option Nat
  pltAddress : Option Nat
  pltSize : Option Nat
  pltFormat : Option Nat
  sonameOffset : Option Nat
  needed : Slots maxNeeded (Option Nat)
  neededCount : Nat
  hasRel : Bool

namespace Tags

def new : Tags :=
  { stringAddress := none, stringSize := none, symbolAddress := none, symbolEntrySize := none,
    hashAddress := none, gnuHashAddress := none, relaAddress := none, relaSize := none,
    relaEntrySize := none, pltAddress := none, pltSize := none, pltFormat := none,
    sonameOffset := none, needed := Slots.replicate maxNeeded none, neededCount := 0,
    hasRel := false }

def pushNeeded (tags : Tags) (value : Nat) : Checked Error Tags := do
  reject (tags.neededCount = maxNeeded) .tooManyNeeded
  if tags.neededCount < maxNeeded then
    return { tags with
      needed := tags.needed.set tags.neededCount (some value)
      neededCount := tags.neededCount + 1 }
  else throw .panic

/-- Take up a tag that is not the last. -/
def record (tags : Tags) (tag value : Nat) : Checked Error Tags :=
  if tag = dtNeeded then tags.pushNeeded value
  else if tag = dtStrtab then return { tags with stringAddress := some value }
  else if tag = dtStrsz then return { tags with stringSize := some value }
  else if tag = dtSymtab then return { tags with symbolAddress := some value }
  else if tag = dtSyment then return { tags with symbolEntrySize := some value }
  else if tag = dtHash then return { tags with hashAddress := some value }
  else if tag = dtGnuHash then return { tags with gnuHashAddress := some value }
  else if tag = dtRela then return { tags with relaAddress := some value }
  else if tag = dtRelasz then return { tags with relaSize := some value }
  else if tag = dtRelaent then return { tags with relaEntrySize := some value }
  else if tag = dtJmprel then return { tags with pltAddress := some value }
  else if tag = dtPltrelsz then return { tags with pltSize := some value }
  else if tag = dtPltrel then return { tags with pltFormat := some value }
  else if tag = dtSoname then return { tags with sonameOffset := some value }
  else if tag = dtRel ∨ tag = dtRelsz ∨ tag = dtRelent then return { tags with hasRel := true }
  else return tags

end Tags

/-- The loop over the dynamic section, and whether it came to the end of it. -/
def readTags (image : List UInt8) (dynamicFileOffset : Nat) :
    List Nat → Tags → Checked Error (Bool × Tags)
  | [], tags => return (false, tags)
  | index :: rest, tags => do
    let offset ← add dynamicFileOffset (← mul index 16)
    let tag ← readU64 image offset
    let value ← readU64 image (← add offset 8)
    if tag = dtNull then return (true, tags)
    else
      let tags ← tags.record tag value
      readTags image dynamicFileOffset rest tags

/-! ### The parser -/

/-- The table of strings. -/
def readStrings (image : List UInt8) (plan : LoadPlan) (tags : Tags) :
    Checked Error (Option Table) :=
  match tags.stringAddress, tags.stringSize with
  | some address, some size => do
    let strings ← table image plan address size 1
    return some strings
  | none, none =>
    if tags.neededCount = 0 ∧ tags.sonameOffset = none then return none
    else fail .missingStringTable
  | _, _ => fail .missingStringTable

/-- How many symbols there are, from either kind of hash table. -/
def readSymbolCount (image : List UInt8) (plan : LoadPlan) (tags : Tags) : Checked Error Nat :=
  match tags.hashAddress, tags.gnuHashAddress with
  | some hash, _ => sysvSymbolCount image plan hash
  | none, some hash => gnuSymbolCount image plan hash
  | none, none => fail .missingSymbolHash

/-- The table of symbols. -/
def readSymbols (image : List UInt8) (plan : LoadPlan) (tags : Tags) :
    Checked Error (Option Table × Nat) :=
  match tags.symbolAddress with
  | some address => do
    let entrySize ← require .invalidTable tags.symbolEntrySize
    reject (entrySize ≠ symbolSize) .invalidTable
    let symbolCount ← readSymbolCount image plan tags
    let size ← require .tableTooLarge (Usize.checkedMul symbolCount symbolSize)
    let symbols ← table image plan address size symbolSize
    return (some symbols, symbolCount)
  | none => return (none, 0)

/-- The check of a name the tags refer to. -/
def checkString (image : List UInt8) (strings : Option Table) (offset : Nat) :
    Checked Error PUnit := do
  let strings ← require .missingStringTable strings
  let offset ← usizeFrom .invalidString offset
  let _ ← stringAt image strings offset

/-- The checks of all of them. -/
def checkStrings (image : List UInt8) (strings : Option Table) (tags : Tags) :
    Checked Error PUnit := do
  reject (tags.neededCount ≠ 0 ∧ strings.isNone = true) .missingStringTable
  (((List.ofFn tags.needed).take tags.neededCount).filterMap id).forM (checkString image strings)
  match tags.sonameOffset with
  | some offset => checkString image strings offset
  | none => return ⟨⟩

/-- The relocations of the first table. -/
def readRela (image : List UInt8) (plan : LoadPlan) (machine : Machine) (symbolCount : Nat)
    (tags : Tags) (relocations : Relocations) : Checked Error Relocations :=
  match tags.relaAddress with
  | some address => do
    let size ← require .invalidTable tags.relaSize
    let entrySize ← require .invalidTable tags.relaEntrySize
    appendRelocations image plan machine symbolCount relocations address size entrySize
  | none =>
    if tags.relaSize.isSome = true ∨ tags.relaEntrySize.isSome = true then
      fail .invalidTable
    else return relocations

/-- The relocations of the second. -/
def readPlt (image : List UInt8) (plan : LoadPlan) (machine : Machine) (symbolCount : Nat)
    (tags : Tags) (relocations : Relocations) : Checked Error Relocations :=
  match tags.pltAddress with
  | some address => do
    reject (tags.pltFormat ≠ some dtRelaFormat) .unsupportedRelocationFormat
    let size ← require .invalidTable tags.pltSize
    appendRelocations image plan machine symbolCount relocations address size
      (tags.relaEntrySize.getD relaSize)
  | none =>
    if tags.pltSize.isSome = true ∨ tags.pltFormat.isSome = true then
      fail .invalidTable
    else return relocations

/-- The table a dynamic header stands for. -/
def readDynamic (plan : LoadPlan) (header : ProgramHeader) : Checked Error Table := do
  let size ← usizeFrom .tableTooLarge header.fileSize
  reject (size = 0 ∨ maxDynamicEntries * 16 < size ∨ size % 16 ≠ 0 ∨
    header.memorySize < header.fileSize) .invalidTable
  let virtualAddress ← rebase plan .invalidTable header.virtualAddress
  let fileOffset ← require .invalidTable (plan.fileOffset virtualAddress size)
  return { virtualAddress, fileOffset, size, entrySize := 16 }

/-- The rest of the parser, of an image that has a dynamic section. -/
def parseDynamic (image : List UInt8) (plan : LoadPlan) (machine : Machine)
    (header : ProgramHeader) (tls : Option TlsPlan) : Checked Error DynamicPlan := do
  let dynamic ← readDynamic plan header
  let (terminated, tags) ← readTags image dynamic.fileOffset (List.range (dynamic.size / 16)) .new
  reject (terminated = false) .missingDynamicTerminator
  let strings ← readStrings image plan tags
  let (symbols, symbolCount) ← readSymbols image plan tags
  checkStrings image strings tags
  reject (tags.hasRel = true) .unsupportedRelocationFormat
  let relocations ← readRela image plan machine symbolCount tags .empty
  let relocations ← readPlt image plan machine symbolCount tags relocations
  return { machine, base := plan.base, dynamic := some dynamic, strings, symbols, symbolCount,
           neededCount := tags.neededCount, needed := tags.needed.map (·.getD 0),
           sonameOffset := tags.sonameOffset, relocationCount := relocations.count,
           relocations := relocations.table, tls }

/-- The plan of an image that has none. -/
def DynamicPlan.static (machine : Machine) (base : Nat) (tls : Option TlsPlan) : DynamicPlan :=
  { machine, base, dynamic := none, strings := none, symbols := none, symbolCount := 0,
    neededCount := 0, needed := Slots.replicate maxNeeded 0, sonameOffset := none,
    relocationCount := 0, relocations := Relocations.empty.table, tls }

/-- Where the program headers are. -/
def readFileHeader (image : List UInt8) (machine : Machine) : Checked Error (Nat × Nat) := do
  reject (image.length < elfHeaderSize) .truncated
  let objectType ← readU16 image 16
  reject (objectType ≠ etDyn) .wrongType
  let objectMachine ← readU16 image 18
  reject (objectMachine ≠ machine.id) .wrongMachine
  let programHeaderOffset ← usizeFrom .invalidTable (← readU64 image 32)
  let programHeaderCount ← readU16 image 56
  let programHeaderBytes ← require .programHeaderOverflow
    (Usize.checkedMul programHeaderCount programHeaderSize)
  let programHeaderEnd ← require .programHeaderOverflow
    (Usize.checkedAdd programHeaderOffset programHeaderBytes)
  reject (image.length < programHeaderEnd) .truncated
  return (programHeaderOffset, programHeaderCount)

def parse (image : List UInt8) (plan : LoadPlan) (machine : Machine) :
    Checked Error DynamicPlan := do
  let (programHeaderOffset, programHeaderCount) ← readFileHeader image machine
  let headers ← (List.range programHeaderCount).foldlM
    (readHeader image plan programHeaderOffset) { dynamic := none, tls := none }
  match headers.dynamic with
  | none => return .static machine plan.base headers.tls
  | some header => parseDynamic image plan machine header headers.tls

/-! ### Reading the plan -/

namespace DynamicPlan

/-- An element of the array of names. -/
def neededOffset (plan : DynamicPlan) (index : Nat) : Checked Error Nat :=
  if index < maxNeeded then pure (plan.needed.get index) else throw .panic

def neededName (plan : DynamicPlan) (image : List UInt8) (index : Nat) :
    Checked Error (Option (List UInt8)) := do
  if plan.neededCount ≤ index then return none
  else
    let strings ← require .missingStringTable plan.strings
    let offset ← plan.neededOffset index
    let name ← stringAt image strings offset
    return some name

def soname (plan : DynamicPlan) (image : List UInt8) : Checked Error (Option (List UInt8)) :=
  match plan.sonameOffset with
  | none => return none
  | some offset => do
    let strings ← require .missingStringTable plan.strings
    let name ← stringAt image strings offset
    return some name

/-- The loop of `lookup_symbol`. -/
def lookupFrom (image : List UInt8) (symbols strings : Table) (name : List UInt8) :
    List Nat → Checked Error (Option Symbol)
  | [] => return none
  | index :: rest => do
    let bytes ← require .invalidTable (Usize.checkedMul index symbolSize)
    let offset ← require .invalidTable (Usize.checkedAdd symbols.fileOffset bytes)
    let entryEnd ← add offset symbolSize
    let entry ← require .truncated (getRange image offset entryEnd)
    let nameOffset ← readU32 entry 0
    let found ← stringAt image strings nameOffset
    if found ≠ name then lookupFrom image symbols strings name rest
    else
      let value ← usizeFrom .invalidTable (← readU64 entry 8)
      let size ← usizeFrom .invalidTable (← readU64 entry 16)
      let info ← Checked.index entry 4
      let section_ ← readU16 entry 6
      return some { nameOffset, value, size, info, defined := decide (section_ ≠ 0) }

def lookupSymbol (plan : DynamicPlan) (image name : List UInt8) :
    Checked Error (Option Symbol) :=
  match plan.symbols with
  | none => return none
  | some symbols => do
    let strings ← require .missingStringTable plan.strings
    lookupFrom image symbols strings name (List.range plan.symbolCount)

/-- The source reads the table before it looks at the count. -/
def relocation (plan : DynamicPlan) (index : Nat) : Checked Error (Option Relocation) :=
  if index < maxRelocations then
    return if index < plan.relocationCount then some (plan.relocations.get index) else none
  else throw .panic

def relativeValue (plan : DynamicPlan) (index : Nat) : Checked Error Nat := do
  let relocation ← require .invalidRelocation (← plan.relocation index)
  if relocation.kind ≠ relativeKind plan.machine then
    fail (if relocation.kindIsSymbolic plan.machine then .symbolRequired
      else .unsupportedRelocation)
  else require .invalidRelocation (addSigned plan.base relocation.addend)

def relocationValue (plan : DynamicPlan) (index : Nat) (symbolValue : Option Nat) :
    Checked Error Nat := do
  let relocation ← require .invalidRelocation (← plan.relocation index)
  if relocation.kind = relativeKind plan.machine then
    require .invalidRelocation (addSigned plan.base relocation.addend)
  else
    reject (relocation.kindIsSymbolic plan.machine = false) .unsupportedRelocation
    let value ← require .symbolRequired symbolValue
    require .invalidRelocation (addSigned value relocation.addend)

end DynamicPlan

end Dynamic

end Norx
