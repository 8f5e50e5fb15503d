import Norx.Lib.Slots

/-!
# The Virtual Machine's Data

The types the loader, the verifier and the interpreter share. An `i32` is a
32-bit word and an `i64` a 64-bit word; where the source reads a sign, so does
the model.

`Opcode.ofByte` is the one table of instruction bytes. The verifier, the
interpreter and the scan for the end of a block each dispatch on the byte
themselves in the source, and they do not agree on which instructions have
operands, so the three models each match on all of `Opcode` and keep their own
idea of it. A byte none of them names is `other`.

The source gives the control entry of the function body the number of a
`loop`, and so the model gives it the kind `loop`: the verifier cannot tell
them apart.

## Main definitions

* `Error`, `Trap`: What the loader and the interpreter fail with.
* `ValType`, `Value`: The operand types and operands.
* `Signature`, `Import`, `DataSegment`, `Module`: A loaded module.
-/

namespace Norx

namespace Wasm

def maxMemory : Nat := 65536

def maxStack : Nat := 256

def maxControl : Nat := 16

def maxHandles : Nat := 8

def maxTypes : Nat := 8

def maxImports : Nat := 4

def maxModule : Nat := 256 * 1024

def maxFuel : Nat := 1000000

inductive Error where
  | truncated
  | badMagic
  | badVersion
  | invalidLeb
  | invalidSection
  | duplicateSection
  | unsupportedSection
  | missingProfile
  | invalidProfile
  | invalidType
  | invalidImport
  | invalidExport
  | invalidMemory
  | invalidCode
  | invalidControl
  | invalidStack
  | typeMismatch
  | unsupportedOpcode
  | moduleTooLarge
  deriving DecidableEq, Repr

inductive Trap where
  | fuelExhausted
  | stackOverflow
  | stackUnderflow
  | memoryFault
  | typeMismatch
  | hostDenied
  | unreachable
  | cancelled
  deriving DecidableEq, Repr

/-- The type of an operand. -/
inductive ValType where
  | i32
  | i64
  deriving DecidableEq, Repr

inductive Value where
  | i32 (value : BitVec 32)
  | i64 (value : BitVec 64)
  deriving DecidableEq, Repr

def Value.type : Value → ValType
  | .i32 _ => .i32
  | .i64 _ => .i64

structure Signature where
  parameters : ValType × ValType
  parameterCount : Nat
  result : Option ValType
  deriving DecidableEq, Repr

def Signature.empty : Signature :=
  { parameters := (.i32, .i32), parameterCount := 0, result := none }

instance : Inhabited Signature := ⟨Signature.empty⟩

inductive Import where
  | log
  | fdRead
  | fdWrite
  | exit
  deriving DecidableEq, Repr

structure DataSegment where
  offset : Nat
  bytes : List UInt8
  deriving DecidableEq, Repr

structure Module where
  code : List UInt8
  types : Slots maxTypes Signature
  typeCount : Nat
  importCount : Nat
  imports : Slots maxImports (Option Import)
  memory : Bool
  data : Option DataSegment

/-- What an entry of a control stack was opened by. -/
inductive ControlKind where
  | block
  | loop
  | conditional
  deriving DecidableEq, Repr

/-- The two-operand `i32` instructions. -/
inductive Arith where
  | add
  | sub
  | mul
  deriving DecidableEq, Repr

inductive Opcode where
  | unreachable
  | nop
  | control (kind : ControlKind)
  | elseArm
  | endBlock
  | call
  | drop
  | localAccess
  | load
  | store
  | i32Const
  | i64Const
  | eqz
  | arith (operation : Arith)
  | i64Add
  | other
  deriving DecidableEq, Repr

/-- The instruction a byte stands for. -/
def Opcode.ofByte (byte : UInt8) : Opcode :=
  if byte = 0x00 then .unreachable
  else if byte = 0x01 then .nop
  else if byte = 0x02 then .control .block
  else if byte = 0x03 then .control .loop
  else if byte = 0x04 then .control .conditional
  else if byte = 0x05 then .elseArm
  else if byte = 0x0b then .endBlock
  else if byte = 0x10 then .call
  else if byte = 0x1a then .drop
  else if byte = 0x20 ∨ byte = 0x21 ∨ byte = 0x22 then .localAccess
  else if byte = 0x28 then .load
  else if byte = 0x36 then .store
  else if byte = 0x41 then .i32Const
  else if byte = 0x42 then .i64Const
  else if byte = 0x45 then .eqz
  else if byte = 0x6a then .arith .add
  else if byte = 0x6b then .arith .sub
  else if byte = 0x6c then .arith .mul
  else if byte = 0x7c then .i64Add
  else .other

/-- No instruction byte has its top bit set, so every byte of a number but the
    last reads as no instruction at all. -/
theorem Opcode.ofByte_of_continues {byte : UInt8} (h : byte &&& 0x80 ≠ 0) :
    Opcode.ofByte byte = .other := by
  have hne : ∀ b : UInt8, b &&& 0x80 = 0 → byte ≠ b := by
    rintro b hb rfl
    exact h hb
  unfold Opcode.ofByte
  rw [if_neg (hne 0x00 rfl), if_neg (hne 0x01 rfl), if_neg (hne 0x02 rfl), if_neg (hne 0x03 rfl),
    if_neg (hne 0x04 rfl), if_neg (hne 0x05 rfl), if_neg (hne 0x0b rfl), if_neg (hne 0x10 rfl),
    if_neg (hne 0x1a rfl), if_neg (not_or.mpr ⟨hne 0x20 rfl, not_or.mpr ⟨hne 0x21 rfl,
      hne 0x22 rfl⟩⟩), if_neg (hne 0x28 rfl), if_neg (hne 0x36 rfl), if_neg (hne 0x41 rfl),
    if_neg (hne 0x42 rfl), if_neg (hne 0x45 rfl), if_neg (hne 0x6a rfl), if_neg (hne 0x6b rfl),
    if_neg (hne 0x6c rfl), if_neg (hne 0x7c rfl)]

end Wasm

end Norx
