import Norx.Fat32.Names
import Norx.Lib.Checked
import Norx.Lib.Turns
import Norx.Lib.Word

/-!
# A FAT32 Volume

`Mount` and its operations. The sectors come from a reader and go to a writer that
are given from outside: a `Medium` is any pair of them over any state, so a reader
may answer the same question differently each time. Beside the state of the medium
a program keeps the list of requests it has made, which nothing reads but the
results.

A loop over a chain of clusters takes at most as many turns as the volume has
clusters, as in the source. Arithmetic of the source that is not checked panics
here where it does not fit. A read copies into a buffer; the model has the length of
the buffer and returns what was copied, and the source's return value is the length
of that.

## Main definitions

* `Sector`, `Medium`, `Machine`: The disk.
* `Mount`, `openWithWriter`: A volume and how it is opened.
* `nextCluster`, `clusterSector`: The file allocation table and the data area.
* `findEntryLocation`: Searching a directory.
* `readChain`, `chainCapacity`, `writeChain`: The content of a file.
* `readFile`, `writeFile`: The operations.
-/

namespace Norx

namespace Fat32

open Fallible
open Checked (reject)

def eocMin : Nat := 0x0ffffff8
def badCluster : Nat := 0x0ffffff7

/-! ### The disk -/

structure Sector where
  bytes : List UInt8
  size : bytes.length = bytesPerSector

/-- A sector that starts with the bytes, as far as they fit, and is zero after
    them. -/
def Sector.load (bytes : List UInt8) : Sector :=
  { bytes := (bytes ++ List.replicate bytesPerSector 0).take bytesPerSector
    size := by
      rw [List.length_take, List.length_append, List.length_replicate]
      omega }

/-- The 32 bytes of a directory entry. -/
def Sector.entry (data : Sector) (slot : Fin 16) : List UInt8 :=
  (data.bytes.drop (32 * slot.val)).take 32

/-- The sector with the size field of an entry overwritten. -/
def Sector.setSize (data : Sector) (slot : Fin 16) (size : Nat) : Sector :=
  { bytes := data.bytes.take (32 * slot.val + 28) ++ leBytes 4 size ++
      data.bytes.drop (32 * slot.val + 32)
    size := by
      have hslot := slot.isLt
      rw [List.length_append, List.length_append, List.length_take, List.length_drop, data.size,
        leBytes_length, bytesPerSector]
      omega }

/-- A reader and a writer. -/
structure Medium (σ : Type) where
  read : Nat → σ → Option Sector × σ
  write : Nat → Sector → σ → Bool × σ

/-- A request made of the medium. -/
inductive Access where
  | read (sector : Nat)
  | write (sector : Nat)
  deriving DecidableEq, Repr

def Access.sector : Access → Nat
  | read sector => sector
  | write sector => sector

structure Machine (σ : Type) where
  disk : σ
  log : List Access

/-- A program over a disk. It may panic. -/
abbrev DiskM (σ : Type) := Fallible (Machine σ) (Stop Error)

section Programs

variable {σ : Type}

/-- Return early with an error. -/
def err {α : Type} (e : Error) : DiskM σ α := fail (.error e)

/-- Arithmetic that may panic, or a check. -/
def arith {α : Type} (x : Checked Error α) : DiskM σ α := lift fun _ => x

/-- The sum of two 32-bit words. -/
def addU32 (a b : Nat) : Checked Error Nat :=
  if a + b < 2 ^ 32 then .ok (a + b) else .error .panic

variable (dev : Medium σ)

def readSector (sector : Nat) : DiskM σ Sector := fun s =>
  match dev.read sector s.disk with
  | (some data, disk) => (.ok data, { disk, log := s.log ++ [.read sector] })
  | (none, disk) => (.error (.error .io), { disk, log := s.log ++ [.read sector] })

def writeSector (sector : Nat) (data : Sector) : DiskM σ Unit := fun s =>
  match dev.write sector data s.disk with
  | (true, disk) => (.ok (), { disk, log := s.log ++ [.write sector] })
  | (false, disk) => (.error (.error .io), { disk, log := s.log ++ [.write sector] })

end Programs

/-! ### Opening -/

structure Mount where
  writable : Bool
  reservedSectors : Nat
  fatSize : Nat
  totalSectors : Nat
  firstDataSector : Nat
  sectorsPerCluster : Nat
  clusterCount : Nat
  rootCluster : Nat
  deriving DecidableEq, Repr

/-- What `open_with_writer` makes of the first sector. -/
def geometry (writable : Bool) (bpb : List UInt8) : Checked Error Mount := do
  reject (byteAt bpb 510 ≠ 0x55 ∨ byteAt bpb 511 ≠ 0xaa) .invalidBpb
  let sectorsPerCluster := (byteAt bpb 13).toNat
  let reservedSectors := leU16 bpb 14
  let fatCount := (byteAt bpb 16).toNat
  let rootEntries := leU16 bpb 17
  let totalSectors := if leU16 bpb 19 ≠ 0 then leU16 bpb 19 else leU32 bpb 32
  reject (leU16 bpb 22 ≠ 0) .invalidBpb
  let fatSize := leU32 bpb 36
  let rootCluster := leU32 bpb 44
  reject (leU16 bpb 11 ≠ bytesPerSector ∨ sectorsPerCluster = 0 ∨
    Word.isPowerOfTwo sectorsPerCluster = false ∨ 128 < sectorsPerCluster ∨
    reservedSectors = 0 ∨ fatCount = 0 ∨ rootEntries ≠ 0 ∨ fatSize = 0 ∨ rootCluster < 2 ∨
    totalSectors ≤ reservedSectors) .invalidBpb
  let fatSectors ← Checked.require .invalidBpb (Usize.checkedMul fatCount fatSize)
  let firstDataSector ← Checked.require .invalidBpb (Usize.checkedAdd reservedSectors fatSectors)
  reject (totalSectors ≤ firstDataSector) .invalidBpb
  let dataSectors ← Checked.sub totalSectors firstDataSector
  let clusterCount := dataSectors / sectorsPerCluster
  reject (2 ^ 32 ≤ clusterCount) .invalidBpb
  let needed ← Checked.mul (← Checked.add clusterCount 2) 4
  let fatBytes ← Checked.mul fatSize bytesPerSector
  reject (clusterCount < 65525 ∨ fatBytes < needed) .invalidBpb
  let lastCluster ← addU32 clusterCount 1
  reject (lastCluster < rootCluster) .invalidBpb
  return { writable, reservedSectors, fatSize, totalSectors, firstDataSector, sectorsPerCluster,
           clusterCount, rootCluster }

section Volume

variable {σ : Type} (dev : Medium σ) (m : Mount)

def openWithWriter (writable : Bool) : DiskM σ Mount := do
  let bpb ← readSector dev 0
  arith (geometry writable bpb.bytes)

/-! ### Clusters -/

def clusterSector (cluster : Nat) : Checked Error Nat := do
  let index ← Checked.sub cluster 2
  Checked.add m.firstDataSector (← Checked.mul index m.sectorsPerCluster)

/-- The check of the loops over the content of a file. -/
def checkCluster (cluster : Nat) : Checked Error Unit := do
  let lastCluster ← addU32 m.clusterCount 1
  reject (cluster < 2 ∨ lastCluster < cluster) .badClusterChain

/-- What an entry of the table says about the next cluster. -/
def decodeNext (data : Sector) (cluster : Nat) : Checked Error (Option Nat) := do
  let value := leU32 data.bytes (cluster * 4 % bytesPerSector) &&& 0x0fffffff
  if eocMin ≤ value then return none
  let lastCluster ← addU32 m.clusterCount 1
  reject (value = 0 ∨ value = badCluster ∨ lastCluster < value) .badClusterChain
  return some value

/-- The sector of the table that has the entry of a cluster. -/
def fatSector (cluster : Nat) : Checked Error Nat := do
  let fatOffset ← Checked.mul cluster 4
  let sector ← Checked.add m.reservedSectors (fatOffset / bytesPerSector)
  let fatEnd ← Checked.add m.reservedSectors m.fatSize
  reject (fatEnd ≤ sector) .badClusterChain
  return sector

def nextCluster (cluster : Nat) : DiskM σ (Option Nat) := do
  let sector ← arith (fatSector m cluster)
  let data ← readSector dev sector
  arith (decodeNext m data cluster)

/-- The sectors of one cluster, counted from its first. -/
def clusterOffsets : List Nat := List.range m.sectorsPerCluster

/-- The sector a turn of an inner loop is about. -/
def dataSector (cluster sector : Nat) : Checked Error Nat := do
  Checked.add (← clusterSector m cluster) sector

/-! ### Directories -/

structure DirectoryEntry where
  directory : Bool
  cluster : Nat
  size : Nat
  deriving DecidableEq, Repr

structure EntryLocation where
  entry : DirectoryEntry
  sector : Nat
  slot : Fin 16
  deriving DecidableEq, Repr

def DirectoryEntry.decode (entry : List UInt8) : DirectoryEntry :=
  { directory := byteAt entry 11 &&& 0x10 ≠ 0
    cluster := leU16 entry 20 * 2 ^ 16 + leU16 entry 26
    size := leU32 entry 28 }

/-- What one entry of a sector means for the search. -/
inductive Verdict where
  | endOfDirectory
  | found
  | skip (name : LongName)

def judge (target : Name) (name : LongName) (entry : List UInt8) : Verdict :=
  if byteAt entry 0 = 0 then .endOfDirectory
  else if byteAt entry 0 = 0xe5 then .skip .empty
  else if byteAt entry 11 = 0x0f then .skip (name.accept entry)
  else if name.matches_ target (shortChecksum (entry.take 11)) = true ∨
      shortNameMatches entry target = true then .found
  else .skip .empty

/-- One entry of a sector. -/
def searchEntry (target : Name) (sector : Nat) (data : Sector) (name : LongName) (slot : Fin 16) :
    DiskM σ (Turn EntryLocation LongName) :=
  match judge target name (data.entry slot) with
  | .endOfDirectory => err .notFound
  | .found => return .done { entry := .decode (data.entry slot), sector, slot }
  | .skip name => return .next name

/-- One sector of a cluster. -/
def searchSector (target : Name) (cluster : Nat) (name : LongName) (sector : Nat) :
    DiskM σ (Turn EntryLocation LongName) := do
  let sector ← arith (dataSector m cluster sector)
  let data ← readSector dev sector
  scan (searchEntry target sector data) (List.finRange 16) name

/-- One cluster of the directory. -/
def searchCluster (target : Name) (at_ : Nat × LongName) :
    DiskM σ (Turn EntryLocation (Nat × LongName)) := do
  match (← scan (searchSector dev m target at_.1) (clusterOffsets m) at_.2) with
  | .done location => return .done location
  | .next name =>
    match (← nextCluster dev m at_.1) with
    | none => err .notFound
    | some next => return .next (next, name)

def findEntryLocation (directoryCluster : Nat) (target : Name) : DiskM σ EntryLocation :=
  turns (.error .badClusterChain) (searchCluster dev m target) m.clusterCount
    (directoryCluster, .empty)

def findEntry (directoryCluster : Nat) (target : Name) : DiskM σ DirectoryEntry := do
  return (← findEntryLocation dev m directoryCluster target).entry

/-! ### The content of a file -/

/-- One sector of the loop of `read_chain`. -/
def readPart (size cluster : Nat) (copied : List UInt8) (sector : Nat) :
    DiskM σ (Turn (List UInt8) (List UInt8)) := do
  if copied.length = size then return .done copied
  let sector ← arith (dataSector m cluster sector)
  let data ← readSector dev sector
  let left ← arith (Checked.sub size copied.length)
  let length := min left bytesPerSector
  let _ ← arith (Checked.add copied.length length)
  return .next (copied ++ data.bytes.take length)

/-- One cluster of it. -/
def readCluster (size : Nat) (at_ : Nat × List UInt8) :
    DiskM σ (Turn (List UInt8) (Nat × List UInt8)) := do
  arith (checkCluster m at_.1)
  match (← scan (readPart dev m size at_.1) (clusterOffsets m) at_.2) with
  | .done copied => return .done copied
  | .next copied =>
    match (← nextCluster dev m at_.1) with
    | none => if copied.length = size then return .done copied else err .badClusterChain
    | some next => return .next (next, copied)

def readChain (start size outputLength : Nat) : DiskM σ (List UInt8) := do
  if outputLength < size then err .bufferTooSmall
  else if size = 0 then return []
  else turns (.error .badClusterChain) (readCluster dev m size) m.clusterCount (start, [])

/-- One cluster of the loop of `chain_capacity`. -/
def measureCluster (clusterBytes : Nat) (at_ : Nat × Nat) : DiskM σ (Turn Nat (Nat × Nat)) := do
  arith (checkCluster m at_.1)
  let capacity ← arith
    (Checked.require .badClusterChain (Usize.checkedAdd at_.2 clusterBytes))
  match (← nextCluster dev m at_.1) with
  | none => return .done capacity
  | some next => return .next (next, capacity)

def chainCapacity (start : Nat) : DiskM σ Nat := do
  let clusterBytes ← arith (Checked.mul m.sectorsPerCluster bytesPerSector)
  turns (.error .badClusterChain) (measureCluster dev m clusterBytes) m.clusterCount (start, 0)

/-- One sector of the loop of `write_chain`. -/
def writePart (input : List UInt8) (cluster copied sector : Nat) : DiskM σ (Turn Unit Nat) := do
  if copied = input.length then return .done ()
  let left ← arith (Checked.sub input.length copied)
  let length := min left bytesPerSector
  let part ← arith (Checked.slice input copied (← arith (Checked.add copied length)))
  writeSector dev (← arith (dataSector m cluster sector)) (Sector.load part)
  return .next (copied + length)

/-- One cluster of it. -/
def writeCluster (input : List UInt8) (at_ : Nat × Nat) : DiskM σ (Turn Unit (Nat × Nat)) := do
  arith (checkCluster m at_.1)
  match (← scan (writePart dev m input at_.1) (clusterOffsets m) at_.2) with
  | .done _ => return .done ()
  | .next copied =>
    match (← nextCluster dev m at_.1) with
    | none => if copied = input.length then return .done () else err .badClusterChain
    | some next => return .next (next, copied)

def writeChain (start : Nat) (input : List UInt8) : DiskM σ Unit := do
  if m.writable = false then err .readOnly
  turns (.error .badClusterChain) (writeCluster dev m input) m.clusterCount (start, 0)

/-! ### Files -/

/-- The loop of both operations over the components but the last: the directory the
    last one is in, and the last one. -/
def walk : Nat → List Name → DiskM σ (Nat × Name)
  | _, [] => err .invalidPath
  | directory, [last] => return (directory, last)
  | directory, component :: rest => do
    let entry ← findEntry dev m directory component
    if entry.directory = false then err .notDirectory
    walk entry.cluster rest

def readFile (path : Name) (outputLength : Nat) : DiskM σ (List UInt8) := do
  let components ← lift fun _ => (components path).mapError .error
  let (directory, last) ← walk dev m m.rootCluster components
  let entry ← findEntry dev m directory last
  if entry.directory = true then err .isDirectory
  readChain dev m entry.cluster entry.size outputLength

def writeFile (path : Name) (input : List UInt8) : DiskM σ Nat := do
  if m.writable = false then err .readOnly
  let components ← lift fun _ => (components path).mapError .error
  let (directory, last) ← walk dev m m.rootCluster components
  let location ← findEntryLocation dev m directory last
  if location.entry.directory = true then err .isDirectory
  let capacity ← chainCapacity dev m location.entry.cluster
  if capacity < input.length then err .noSpace
  writeChain dev m location.entry.cluster input
  let data ← readSector dev location.sector
  writeSector dev location.sector (data.setSize location.slot input.length)
  return input.length

end Volume

end Fat32

end Norx
