import Norx.Lib.Loop
import Norx.Wasm.Scan

/-!
# The Interpreter

`Instance::run` and what it runs on. The machine state is what the loop of
`run` works with: the position in the code, the operand stack, the stack of
open blocks with the positions of their ends, the linear memory, the handle
table and the host. A host is a function with a state of its own. It is lent
the memory and the handle table and may write to both, but it cannot revoke
the memory, because that method is private to the module.

One turn of the loop is a fallible program over that state. It ends the run
with a value, with a trap of the interpreter's own, or with a trap the host
returned. The source returns the last two alike, and `Stop.result` is where
the difference is forgotten.

An address is an `i32` cast to `usize`, so a negative one is taken for a very
large one. The checked additions on it cannot be told from exact ones, because
what overflows is also past the end of the memory.

## Main definitions

* `LinearMemory`, `HandleTable`, `Host`, `Machine`, `Stop`: The machine.
* `Instance.run`: Running an instance.

## Theorems

* `wp_fetch`, `wp_popI32`, `wp_popI64`, `wp_pushValue`, `wp_load`, `wp_store`,
  `wp_leaveArm`, `wp_closeBlock`, `wp_return`, `wp_turn`: The parts of a turn on
  operands of the right types, in the right block.
-/

namespace Norx

namespace Wasm

open Fallible

structure LinearMemory where
  bytes : Slots maxMemory UInt8
  live : Bool

/-- The memory of a new instance: zero but for the data segment, whatever the
    buffer held before. -/
def LinearMemory.new (module : Module) : LinearMemory where
  bytes := fun i =>
    match module.data with
    | none => 0
    | some data =>
      if data.offset ≤ i.val ∧ i.val < data.offset + data.bytes.length then
        data.bytes.getD (i.val - data.offset) 0
      else 0
  live := true

/-- The first byte of an access of `length` bytes. -/
def LinearMemory.range (memory : LinearMemory) (address offset length : Nat) : Except Trap Nat :=
  if memory.live = false then .error .cancelled
  else if address + offset + length ≤ maxMemory then .ok (address + offset)
  else .error .memoryFault

/-- Byte `i` of the memory, as a word. -/
def LinearMemory.byte (memory : LinearMemory) (i : Nat) : BitVec 8 :=
  (memory.bytes.get i).toBitVec

def LinearMemory.loadI32 (memory : LinearMemory) (address offset : Nat) :
    Except Trap (BitVec 32) := do
  let start ← memory.range address offset 4
  pure (memory.byte (start + 3) ++ memory.byte (start + 2) ++ memory.byte (start + 1) ++
    memory.byte start)

def LinearMemory.storeI32 (memory : LinearMemory) (address offset : Nat) (value : BitVec 32) :
    Except Trap LinearMemory := do
  let start ← memory.range address offset 4
  let digit (i : Nat) : UInt8 := ⟨value.extractLsb' (8 * i) 8⟩
  pure { memory with
    bytes := (((memory.bytes.set start (digit 0)).set (start + 1) (digit 1)).set (start + 2)
      (digit 2)).set (start + 3) (digit 3) }

structure HandleTable where
  slots : Slots maxHandles (Option (BitVec 32))

def HandleTable.new : HandleTable where
  slots := Slots.replicate maxHandles none

/-- A host with a state of its own. It returns the bytes of the memory and the
    handle table as it leaves them. -/
structure Host (σ : Type) where
  call : Import → List Value → σ → LinearMemory → HandleTable →
    Except Trap (Option Value) × σ × Slots maxMemory UInt8 × HandleTable

/-- The interpreter between two instructions. -/
structure Machine (σ : Type) where
  position : Nat
  stack : List Value
  controls : List (Nat × ControlKind)
  memory : LinearMemory
  handles : HandleTable
  host : σ

/-- How a run ends: with a value, with a trap of the interpreter, or with one
    that the host returned. -/
inductive Stop where
  | returned (value : BitVec 32)
  | trapped (trap : Trap)
  | refused (trap : Trap)
  deriving DecidableEq, Repr

def Stop.result : Stop → Except Trap (BitVec 32)
  | .returned value => .ok value
  | .trapped trap => .error trap
  | .refused trap => .error trap

/-- A part of one turn of the interpreter. -/
abbrev Turn (σ α : Type) := Fallible (Machine σ) Stop α

variable {σ : Type}

/-- Read from the code at the current position, and move past what was read. -/
def fetch {α : Type} (code : List UInt8)
    (reader : List UInt8 → Nat → Except Error (α × Nat)) : Turn σ α := fun m =>
  match reader code m.position with
  | .ok (a, position) => (.ok a, { m with position })
  | .error _ => (.error (.trapped .typeMismatch), m)

def popValue : Turn σ Value := fun m =>
  match m.stack with
  | [] => (.error (.trapped .stackUnderflow), m)
  | value :: stack => (.ok value, { m with stack })

def popI32 : Turn σ (BitVec 32) := do
  let value ← popValue
  match value with
  | .i32 value => pure value
  | .i64 _ => fail (.trapped .typeMismatch)

def popI64 : Turn σ (BitVec 64) := do
  let value ← popValue
  match value with
  | .i64 value => pure value
  | .i32 _ => fail (.trapped .typeMismatch)

def pushValue (value : Value) : Turn σ PUnit := fun m =>
  if m.stack.length = maxStack then (.error (.trapped .stackOverflow), m)
  else (.ok ⟨⟩, { m with stack := value :: m.stack })

/-- The condition of an `if`. -/
def condition (kind : ControlKind) : Turn σ (Option (BitVec 32)) :=
  if kind = .conditional then do
    let value ← popI32
    pure (some value)
  else pure none

/-- Enter a block whose `else` and `end` have been found. -/
def enter (kind : ControlKind) (test : Option (BitVec 32)) (elsePosition : Option Nat)
    (endPosition : Nat) : Turn σ PUnit := fun m =>
  if m.controls.length = maxControl then (.error (.trapped .stackOverflow), m)
  -- A false condition skips the first arm, and without a second the whole block.
  else if test = some 0 then
    match elsePosition with
    | some elsePosition => (.ok ⟨⟩, { m with
        position := elsePosition + 1
        controls := (endPosition, kind) :: m.controls })
    | none => (.ok ⟨⟩, { m with position := endPosition + 1 })
  else (.ok ⟨⟩, { m with controls := (endPosition, kind) :: m.controls })

def openBlock (code : List UInt8) (kind : ControlKind) : Turn σ PUnit := do
  let test ← condition kind
  let blockType ← fetch code Cursor.byte
  if blockType ≠ 0x40 then fail (.trapped .typeMismatch)
  else
    let (elsePosition, endPosition) ← lift (fun m =>
      match findControlEnd code m.position with
      | .ok found => .ok found
      | .error trap => .error (.trapped trap))
    enter kind test elsePosition endPosition

/-- The end of the first arm of an `if`: leave the block. -/
def leaveArm : Turn σ PUnit := fun m =>
  match m.controls with
  | [] => (.error (.trapped .typeMismatch), m)
  | (endPosition, kind) :: controls =>
    if kind ≠ .conditional then (.error (.trapped .typeMismatch), m)
    else (.ok ⟨⟩, { m with position := endPosition + 1, controls })

/-- The value the code returns. -/
def returnValue : Turn σ PUnit := do
  let value ← popValue
  match value with
  | .i32 value => fail (.returned value)
  | .i64 _ => fail (.trapped .typeMismatch)

/-- An `end`: of the innermost block if that is where it is, and otherwise of
    the code. The position is already past it. -/
def closeBlock : Turn σ PUnit := fun m =>
  match m.controls with
  | [] => returnValue m
  | (endPosition, _) :: controls =>
    if endPosition = m.position - 1 then (.ok ⟨⟩, { m with controls }) else returnValue m

/-- Call the host, and push what it returns. -/
def callHost (host : Host σ) (arguments : List Value) : Turn σ PUnit := fun m =>
  match host.call .log arguments m.host m.memory m.handles with
  | (outcome, state, bytes, handles) =>
    let m := { m with host := state, memory := { m.memory with bytes }, handles }
    match outcome with
    | .error trap => (.error (.refused trap), m)
    | .ok none => (.ok ⟨⟩, m)
    | .ok (some value) => pushValue value m

/-- An address, as a `usize`. -/
def usize (value : BitVec 32) : Nat := (value.signExtend 64).toNat

def load (address : BitVec 32) (offset : BitVec 32) : Turn σ PUnit := do
  let value ← lift (fun m =>
    match m.memory.loadI32 (usize address) offset.toNat with
    | .ok value => .ok value
    | .error trap => .error (.trapped trap))
  pushValue (.i32 value)

def store (address : BitVec 32) (offset value : BitVec 32) : Turn σ PUnit := fun m =>
  match m.memory.storeI32 (usize address) offset.toNat value with
  | .ok memory => (.ok ⟨⟩, { m with memory })
  | .error trap => (.error (.trapped trap), m)

def Arith.apply : Arith → BitVec 32 → BitVec 32 → BitVec 32
  | .add, left, right => left + right
  | .sub, left, right => left - right
  | .mul, left, right => left * right

/-- What the interpreter does for an opcode it has read. -/
def perform (code : List UInt8) (host : Host σ) : Opcode → Turn σ PUnit
  | .unreachable => fail (.trapped .unreachable)
  | .nop => pure ⟨⟩
  | .control kind => openBlock code kind
  | .elseArm => leaveArm
  | .call => do
    -- The index is that of an import, and only the first can be called.
    let index ← fetch code Cursor.lebU32
    if index ≠ 0 then fail (.trapped .hostDenied)
    else
      let len ← popI32
      let ptr ← popI32
      callHost host [.i32 ptr, .i32 len]
  | .drop => do
    let _ ← popValue
    pure ⟨⟩
  | .load => do
    let _ ← fetch code Cursor.lebU32
    let offset ← fetch code Cursor.lebU32
    let address ← popI32
    load address offset
  | .store => do
    let _ ← fetch code Cursor.lebU32
    let offset ← fetch code Cursor.lebU32
    let value ← popI32
    let address ← popI32
    store address offset value
  | .i32Const => do
    let value ← fetch code Cursor.lebI32
    pushValue (.i32 value)
  | .i64Const => do
    let value ← fetch code Cursor.lebI64
    pushValue (.i64 value)
  | .eqz => do
    let value ← popI32
    pushValue (.i32 (if value = 0 then 1 else 0))
  | .arith operation => do
    let right ← popI32
    let left ← popI32
    pushValue (.i32 (operation.apply left right))
  | .i64Add => do
    let right ← popI64
    let left ← popI64
    pushValue (.i64 (left + right))
  | .endBlock => closeBlock
  | .localAccess => fail (.trapped .typeMismatch)
  | .other => fail (.trapped .typeMismatch)

/-- One turn of the interpreter's loop. -/
def turn (code : List UInt8) (host : Host σ) : Turn σ PUnit := do
  let opcode ← fetch code Cursor.byte
  perform code host (Opcode.ofByte opcode)

/-- The interpreter's loop. Code that runs off its end is a trap. -/
def execute (code : List UInt8) (host : Host σ) (fuel : Nat) (m : Machine σ) :
    Stop × Machine σ :=
  loop (fun m => decide (m.position = code.length)) (.trapped .typeMismatch)
    (.trapped .fuelExhausted) (turn code host) fuel m

/-- A module with its memory and handles. The operand stack and the fuel are
    set up anew by each run. -/
structure Instance where
  module : Module
  memory : LinearMemory
  handles : HandleTable
  cancelled : Bool

def Instance.new (module : Module) : Instance where
  module
  memory := LinearMemory.new module
  handles := HandleTable.new
  cancelled := false

/-- The machine a run starts from. -/
def Instance.start (i : Instance) (state : σ) : Except Trap (Machine σ) :=
  if i.cancelled = true then .error .cancelled
  else
    match Cursor.lebU32 i.module.code 0 with
    | .error _ => .error .typeMismatch
    | .ok (locals, position) =>
      if locals ≠ 0 then .error .typeMismatch
      else
        .ok {
          position
          stack := []
          controls := []
          memory := i.memory
          handles := i.handles
          host := state }

def Instance.run (i : Instance) (host : Host σ) (state : σ) (fuel : Nat) :
    Except Trap (BitVec 32) × Instance × σ :=
  match i.start state with
  | .error trap => (.error trap, i, state)
  | .ok m =>
    let (stop, m) := execute i.module.code host (min fuel maxFuel) m
    (stop.result, { i with memory := m.memory, handles := m.handles }, m.host)

variable {rest : List Value}

section Rules

variable {Q : PUnit → Machine σ → Prop} {E : Stop → Machine σ → Prop} {m : Machine σ}
  {code : List UInt8}

theorem wp_fetch {α : Type} {reader : List UInt8 → Nat → Except Error (α × Nat)} {a : α} {p : Nat}
    {Q : α → Machine σ → Prop} (h : reader code m.position = .ok (a, p))
    (hQ : Q a { m with position := p }) : wp (fetch code reader) Q E m := by
  unfold wp fetch
  rw [h]
  exact hQ

theorem wp_popValue {value : Value} {Q : Value → Machine σ → Prop} (h : m.stack = value :: rest)
    (hQ : Q value { m with stack := rest }) : wp popValue Q E m := by
  unfold wp popValue
  rw [h]
  exact hQ

variable {value : BitVec 32}

theorem wp_popI32 {Q : BitVec 32 → Machine σ → Prop} (h : m.stack = .i32 value :: rest)
    (hQ : Q value { m with stack := rest }) : wp popI32 Q E m := by
  rw [popI32, wp_bind]
  exact wp_popValue h hQ

theorem wp_popI64 {value : BitVec 64} {Q : BitVec 64 → Machine σ → Prop}
    (h : m.stack = .i64 value :: rest) (hQ : Q value { m with stack := rest }) :
    wp popI64 Q E m := by
  rw [popI64, wp_bind]
  exact wp_popValue h hQ

theorem wp_pushValue {value : Value} (h : m.stack.length ≠ maxStack)
    (hQ : Q ⟨⟩ { m with stack := value :: m.stack }) : wp (pushValue value) Q E m := by
  unfold wp pushValue
  rw [if_neg h]
  exact hQ

/-- An access to a memory that has not been revoked can only be out of range. -/
theorem range_cases {memory : LinearMemory} (h : memory.live = true) (address offset length : Nat) :
    memory.range address offset length = .ok (address + offset) ∨
      memory.range address offset length = .error .memoryFault := by
  rw [LinearMemory.range, if_neg (by rw [h]; exact nofun)]
  split
  · exact .inl rfl
  · exact .inr rfl

theorem wp_load {address offset : BitVec 32} (hlive : m.memory.live = true)
    (hlength : m.stack.length ≠ maxStack)
    (hQ : ∀ value, Q ⟨⟩ { m with stack := .i32 value :: m.stack })
    (hE : E (.trapped .memoryFault) m) : wp (load address offset) Q E m := by
  rw [load, wp_bind, wp_lift, LinearMemory.loadI32]
  -- In range there is a value to push, whatever it is; out of range there is a fault.
  rcases range_cases hlive (usize address) offset.toNat 4 with hrange | hrange
  · rw [hrange]
    exact ⟨fun value _ => wp_pushValue hlength (hQ value), fun e he => absurd he nofun⟩
  · rw [hrange]
    refine ⟨fun value hvalue => absurd hvalue nofun, fun e he => ?_⟩
    injection he with he
    rw [← he]
    exact hE

theorem wp_store {address offset value : BitVec 32} (hlive : m.memory.live = true)
    (hQ : ∀ memory : LinearMemory, memory.live = true → Q ⟨⟩ { m with memory })
    (hE : E (.trapped .memoryFault) m) : wp (store address offset value) Q E m := by
  unfold wp store
  rw [LinearMemory.storeI32]
  rcases range_cases hlive (usize address) offset.toNat 4 with hrange | hrange
  · rw [hrange]
    exact hQ _ hlive
  · rw [hrange]
    exact hE

variable {controls : List (Nat × ControlKind)}

theorem wp_leaveArm {e : Nat} (h : m.controls = (e, .conditional) :: controls)
    (hQ : Q ⟨⟩ { m with position := e + 1, controls }) : wp leaveArm Q E m := by
  unfold wp leaveArm
  rw [h]
  exact hQ

theorem wp_closeBlock {e : Nat} {kind : ControlKind} (h : m.controls = (e, kind) :: controls)
    (he : e = m.position - 1) (hQ : Q ⟨⟩ { m with controls }) : wp closeBlock Q E m := by
  unfold wp closeBlock
  rw [h]
  dsimp only
  rw [if_pos he]
  exact hQ

theorem wp_return (hcontrols : m.controls = []) (hstack : m.stack = .i32 value :: rest)
    (hE : E (.returned value) { m with stack := rest }) : wp closeBlock Q E m := by
  have hreturn : wp returnValue Q E m := by
    rw [returnValue, wp_bind]
    exact wp_popValue hstack hE
  unfold wp closeBlock
  rw [hcontrols]
  exact hreturn

/-- One turn, once the opcode is read. -/
theorem wp_turn {host : Host σ} {op : Opcode} (h : opcodeAt code m.position = some op)
    (hQ : wp (perform code host op) Q E { m with position := m.position + 1 }) :
    wp (turn code host) Q E m := by
  rcases Option.map_eq_some_iff.mp h with ⟨byte, hbyte, hop⟩
  rw [turn, wp_bind]
  refine wp_fetch (Cursor.byte_eq_ok.mpr ⟨hbyte, rfl⟩) ?_
  rw [hop]
  exact hQ

end Rules

end Wasm

end Norx
