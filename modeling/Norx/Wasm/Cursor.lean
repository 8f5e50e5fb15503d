import Norx.Lib.Fallible
import Norx.Wasm.Types

/-!
# The Byte Cursor

Reading a byte string from a position. The source's cursor is a slice with a
position that each read moves on; here a read takes the slice and the position
and returns the position after it. A read that fails ends the whole parse, so
where it leaves the cursor does not matter.

The three number readers are loops over the bytes left. The two signed ones
are the same loop at two widths. Each is bounded by its shift: a sixth byte
of a 32-bit number, or an eleventh of a 64-bit one, is an error.

`Leb` is the shape of what they read: some bytes with the top bit set, then
one without. It says nothing about the value, and it is all the scan for a
block's end depends on.

## Main definitions

* `byte`, `slice`, `count`, `name`, `valueType`: The readers.
* `lebU32`, `lebI32`, `lebI64`: The number readers.

## Theorems

* `Leb.lt`, `Leb.le_length`: A number takes at least one byte, all of them there.
-/

namespace Norx

namespace Wasm

namespace Cursor

def byte (bytes : List UInt8) (position : Nat) : Except Error (UInt8 × Nat) :=
  match bytes[position]? with
  | none => .error .truncated
  | some byte => .ok (byte, position + 1)

def slice (bytes : List UInt8) (position length : Nat) : Except Error (List UInt8 × Nat) :=
  if position + length ≤ bytes.length then
    .ok ((bytes.drop position).take length, position + length)
  else .error .truncated

/-- The loop of `leb_u32`, over the bytes left to read. -/
def lebU32Loop : List UInt8 → Nat → Nat → BitVec 32 → Except Error (BitVec 32 × Nat)
  | [], _, _, _ => .error .truncated
  | byte :: rest, position, shift, value =>
    -- The fifth byte has room for four bits, and no sixth is read.
    if 32 ≤ shift ∨ (shift = 28 ∧ 0x0f < byte) then .error .invalidLeb
    else
      let value := value ||| ((byte &&& 0x7f).toBitVec.setWidth 32 <<< shift)
      if byte &&& 0x80 = 0 then .ok (value, position + 1)
      else lebU32Loop rest (position + 1) (shift + 7) value

def lebU32 (bytes : List UInt8) (position : Nat) : Except Error (BitVec 32 × Nat) :=
  lebU32Loop (bytes.drop position) position 0 0

/-- The loop of `leb_i32` and `leb_i64`, over the bytes left to read. -/
def lebSignedLoop (width : Nat) :
    List UInt8 → Nat → Nat → BitVec width → Except Error (BitVec width × Nat)
  | [], _, _, _ => .error .truncated
  | byte :: rest, position, shift, value =>
    if width ≤ shift then .error .invalidLeb
    else
      let value := value ||| ((byte &&& 0x7f).toBitVec.setWidth width <<< shift)
      let shift := shift + 7
      if byte &&& 0x80 = 0 then
        -- A last byte of full width is taken as it is, sign bit or not.
        if shift < width ∧ byte &&& 0x40 ≠ 0 then
          .ok (value ||| (BitVec.allOnes width <<< shift), position + 1)
        else .ok (value, position + 1)
      else lebSignedLoop width rest (position + 1) shift value

def lebSigned (width : Nat) (bytes : List UInt8) (position : Nat) :
    Except Error (BitVec width × Nat) :=
  lebSignedLoop width (bytes.drop position) position 0 0

def lebI32 (bytes : List UInt8) (position : Nat) : Except Error (BitVec 32 × Nat) :=
  lebSigned 32 bytes position

def lebI64 (bytes : List UInt8) (position : Nat) : Except Error (BitVec 64 × Nat) :=
  lebSigned 64 bytes position

def count (bytes : List UInt8) (position maximum : Nat) : Except Error (Nat × Nat) := do
  let (count, position) ← lebU32 bytes position
  if count.toNat ≤ maximum then pure (count.toNat, position) else throw .invalidSection

def name (bytes : List UInt8) (position : Nat) : Except Error (List UInt8 × Nat) := do
  let (length, position) ← count bytes position 32
  let (name, position) ← slice bytes position length
  if name.contains 0 then throw .invalidSection else pure (name, position)

def valueType (bytes : List UInt8) (position : Nat) : Except Error (ValType × Nat) := do
  let (byte, position) ← byte bytes position
  if byte = 0x7f then pure (.i32, position)
  else if byte = 0x7e then pure (.i64, position)
  else throw .invalidType

/-- The bytes from `p` up to `p'` are the digits of one number: every byte but
    the last says that another follows. -/
inductive Leb (bytes : List UInt8) : Nat → Nat → Prop where
  | last {p : Nat} {byte : UInt8} (hbyte : bytes[p]? = some byte) (hend : byte &&& 0x80 = 0) :
      Leb bytes p (p + 1)
  | more {p p' : Nat} {byte : UInt8} (hbyte : bytes[p]? = some byte) (hmore : byte &&& 0x80 ≠ 0)
      (rest : Leb bytes (p + 1) p') : Leb bytes p p'

variable {bytes : List UInt8} {p p' : Nat}

theorem Leb.lt (h : Leb bytes p p') : p < p' := by
  induction h with
  | last _ _ => exact Nat.lt_succ_self _
  | more _ _ _ ih => omega

theorem Leb.le_length (h : Leb bytes p p') : p' ≤ bytes.length := by
  induction h with
  | last hbyte _ => exact (List.getElem?_eq_some_iff.mp hbyte).1
  | more _ _ _ ih => exact ih

theorem Leb.last_byte (h : Leb bytes p p') : ∃ byte, bytes[p' - 1]? = some byte := by
  induction h with
  | last hbyte _ => exact ⟨_, hbyte⟩
  | more _ _ _ ih => exact ih

theorem byte_eq_ok {byte : UInt8} :
    Cursor.byte bytes p = .ok (byte, p') ↔ bytes[p]? = some byte ∧ p' = p + 1 := by
  unfold Cursor.byte
  cases bytes[p]? with
  | none => simp
  | some b =>
    simp only [Except.ok.injEq, Prod.mk.injEq, Option.some.injEq]
    exact and_congr_right (fun _ => eq_comm)

end Cursor

end Wasm

end Norx
