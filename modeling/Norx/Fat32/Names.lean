import Norx.Lib.Bytes
import Norx.Lib.Slots

/-!
# Names in a FAT32 Directory

How `fat32.rs` compares a path component with a directory entry. An entry of 32
bytes has a short name; the records before it may spell a long one in UTF-16, 13
units each, last record first. A `LongName` collects those records, and `matches`
encodes what it has collected and compares it with the bytes of the component.

Paths and components are the bytes of the strings. The record numbers a `LongName`
has seen are a bit set in a word; the number of the last record is at most 20, and
that is part of the record here, so that no shift by it leaves the word.

## Main definitions

* `Error`: What an operation on a volume can fail with.
* `LongName`, `LongName.accept`, `LongName.matches`: A long name as it is read.
* `shortNameMatches`, `shortChecksum`: The short name of an entry.
* `components`: The parts of a path.
-/

namespace Norx

namespace Fat32

def bytesPerSector : Nat := 512
def maxLfnChars : Nat := 260
def maxComponents : Nat := 16

inductive Error where
  | io
  | invalidBpb
  | invalidPath
  | notFound
  | notDirectory
  | isDirectory
  | badClusterChain
  | bufferTooSmall
  | noSpace
  | readOnly
  deriving DecidableEq, Repr

/-- The bytes of a path or of one component. -/
abbrev Name := List UInt8

/-- A byte of a sector or of an entry. -/
def byteAt (bytes : List UInt8) (offset : Nat) : UInt8 := bytes.getD offset 0

def leU16 (bytes : List UInt8) (offset : Nat) : Nat := leNat ((bytes.drop offset).take 2)
def leU32 (bytes : List UInt8) (offset : Nat) : Nat := leNat ((bytes.drop offset).take 4)

/-! ### Long names -/

structure LongName where
  chars : Slots maxLfnChars UInt16
  checksum : UInt8
  maxSequence : Nat
  seen : Nat
  valid : Bool
  bounded : maxSequence ≤ maxLfnChars / 13

namespace LongName

def empty : LongName :=
  { chars := fun _ => 0, checksum := 0, maxSequence := 0, seen := 0, valid := false,
    bounded := Nat.zero_le _ }

/-- Where the 13 units of a record are. -/
def unitOffsets : List Nat := [1, 3, 5, 7, 9, 14, 16, 18, 20, 22, 24, 28, 30]

/-- The units of a record. -/
def units (entry : List UInt8) : List UInt16 :=
  unitOffsets.map fun offset => UInt16.ofNat (leU16 entry offset)

/-- Take up a record. -/
def accept (name : LongName) (entry : List UInt8) : LongName :=
  let sequence := (byteAt entry 0 &&& 0x1f).toNat
  if h : sequence ≠ 0 ∧ sequence ≤ maxLfnChars / 13 then
    let name := if byteAt entry 0 &&& 0x40 ≠ 0 then
        { name with maxSequence := sequence, checksum := byteAt entry 13, seen := 0, valid := true,
                    bounded := h.2 }
      else name
    if name.valid = false ∨ name.checksum ≠ byteAt entry 13 then empty
    else
      { name with
        chars := (List.range 13).foldl (fun chars i =>
          chars.set ((sequence - 1) * 13 + i) ((units entry).getD i 0)) name.chars
        seen := name.seen ||| 1 <<< (sequence - 1) }
  else empty

/-- One unit after what is already encoded, in a buffer that has to have room. A
    surrogate is encoded as if it were a character. -/
def encodeUtf8 (character : UInt16) (output : List UInt8) : Option (List UInt8) :=
  let c := character.toUInt32
  let bytes : List UInt8 :=
    if c ≤ 0x7f then [c.toUInt8]
    else if c ≤ 0x7ff then
      [(0xc0 : UInt8) ||| (c >>> 6).toUInt8, (0x80 : UInt8) ||| (c &&& 0x3f).toUInt8]
    else
      [(0xe0 : UInt8) ||| (c >>> 12).toUInt8, (0x80 : UInt8) ||| ((c >>> 6) &&& 0x3f).toUInt8,
        (0x80 : UInt8) ||| (c &&& 0x3f).toUInt8]
  if output.length + bytes.length ≤ maxLfnChars * 3 then some (output ++ bytes) else none

/-- The loop of `matches`: up to the end of the name. -/
def encode : List UInt16 → List UInt8 → Option (List UInt8)
  | [], output => some output
  | character :: rest, output =>
    if character = 0 ∨ character = 0xffff then some output
    else (encodeUtf8 character output).bind (encode rest)

def matches_ (name : LongName) (target : Name) (shortChecksum : UInt8) : Bool :=
  let all := 1 <<< name.maxSequence - 1
  if name.valid = false ∨ name.maxSequence = 0 ∨ name.checksum ≠ shortChecksum ∨
      name.seen &&& all ≠ all then false
  else
    match encode ((List.ofFn name.chars).take (name.maxSequence * 13)) [] with
    | none => false
    | some encoded => decide (encoded = target)

end LongName

/-! ### Short names -/

/-- The byte of a space. -/
def space : UInt8 := 0x20

def lowercase (byte : UInt8) : UInt8 := if 0x41 ≤ byte ∧ byte ≤ 0x5a then byte + 0x20 else byte

def asciiEqIgnoreCase (left right : List UInt8) : Bool :=
  decide (left.map lowercase = right.map lowercase)

def shortNameMatches (entry : List UInt8) (target : Name) : Bool :=
  let base := (entry.take 8).filter (· ≠ space)
  let extension := ((entry.drop 8).take 3).filter (· ≠ space)
  let short := if extension = [] then base else base ++ 0x2e :: extension
  asciiEqIgnoreCase short target

def shortChecksum (name : List UInt8) : UInt8 :=
  name.foldl (fun checksum byte => (checksum >>> 1) + ((checksum &&& 1) <<< 7) + byte) 0

/-! ### Paths -/

/-- The byte `/`. -/
def slash : UInt8 := 0x2f

/-- Add a component, unless it is empty. -/
def pushComponent (result : List Name) (component : Name) : Except Error (List Name) :=
  if component = [] then .ok result
  else if result.length = maxComponents then .error .invalidPath
  else .ok (result ++ [component])

/-- The loop of `components`: what has been cut off, and the component that is
    being read. -/
def splitComponents : List UInt8 → List Name → Name → Except Error (List Name)
  | [], result, component => pushComponent result component
  | byte :: rest, result, component =>
    if byte ≠ slash then splitComponents rest result (component ++ [byte])
    else
      match pushComponent result component with
      | .ok result => splitComponents rest result []
      | .error error => .error error

def components (path : Name) : Except Error (List Name) :=
  match path with
  | [] => .error .invalidPath
  | byte :: rest =>
    if byte ≠ slash then .error .invalidPath
    else
      match splitComponents rest [] [] with
      | .ok [] => .error .invalidPath
      | result => result

end Fat32

end Norx
