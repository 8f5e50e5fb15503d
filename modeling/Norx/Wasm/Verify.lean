import Norx.Wasm.Leb

/-!
# The Body Verifier

`verify_body` reads a function body once from front to back. It keeps the
types of the operands the code would have on its stack, and a stack of the
blocks it is inside of. Both are lists here with the top first; the source's
entries above the current length are never read before they are overwritten.

`Instr` and `Fetch` are the verifier's reading of the bytes: an instruction
with its operands, and where the next one starts. `Checks` is what one step
can do in those terms, and `verifyStep_checks` says that it is all one step
can do. Everything proved about accepted bodies goes through it.

The entry the verifier pushes for the function body has the kind of a `loop`,
so the `end` of a `loop` is taken for the end of the body, and rejected for
not being the last byte. No accepted body has a `loop` with an end.

## Main definitions

* `Control`, `Verifier`: The verifier's state.
* `verifyStep`, `verifyLoop`, `verifyBody`: The verifier.

## Theorems

* `verifyStep_checks`: A step of the verifier is one of those listed.
* `Checks.fetched`, `Fetch.bounds`: A step reads one instruction, so it moves on
  and not past the end.
-/

namespace Norx

namespace Wasm

structure Control where
  kind : ControlKind
  height : Nat
  hasElse : Bool
  deriving DecidableEq, Repr

/-- The verifier between two instructions. -/
structure Verifier where
  position : Nat
  stack : List ValType
  controls : List Control
  ended : Bool
  deriving DecidableEq, Repr

def pop (stack : List ValType) (expected : ValType) : Except Error (List ValType) :=
  match stack with
  | [] => throw .invalidStack
  | top :: rest => if top = expected then pure rest else throw .typeMismatch

def push (stack : List ValType) (value : ValType) : Except Error (List ValType) :=
  if stack.length = maxStack then throw .invalidStack else pure (value :: stack)

/-- The operands popped when a block of the kind is entered: `if` takes its
    condition. -/
def popCondition (kind : ControlKind) (stack : List ValType) : Except Error (List ValType) :=
  if kind = .conditional then pop stack .i32 else pure stack

/-- The result popped at the end of the body, if the signature has one. -/
def popResult (result : Option ValType) (stack : List ValType) : Except Error (List ValType) :=
  match result with
  | none => pure stack
  | some result => pop stack result

/-- One turn of the verifier's loop. `result` is the result type of the
    signature the body is checked against, all that is read of it. -/
def verifyStep (module : Module) (result : Option ValType) (body : List UInt8) (v : Verifier) :
    Except Error Verifier := do
  let (opcode, position) ← Cursor.byte body v.position
  match Opcode.ofByte opcode with
  | .unreachable => throw .unsupportedOpcode
  | .nop => pure { v with position }
  | .control kind =>
    let stack ← popCondition kind v.stack
    let (blockType, position) ← Cursor.byte body position
    if blockType ≠ 0x40 ∨ v.controls.length = maxControl then throw .invalidControl
    else
      -- The height is taken after the condition is popped.
      let control := { kind, height := stack.length, hasElse := false }
      pure { v with position, stack, controls := control :: v.controls }
  | .elseArm =>
    match v.controls with
    | [] => throw .invalidControl
    | control :: outer =>
      if control.kind ≠ .conditional ∨ control.hasElse = true then throw .invalidControl
      else if v.stack.length ≠ control.height then throw .invalidStack
      else pure { v with position, controls := { control with hasElse := true } :: outer }
  | .endBlock =>
    match v.controls with
    | [] => throw .invalidControl
    | control :: outer =>
      -- The entry of the body has this kind, and an inner `loop` is taken for it.
      if control.kind = .loop then
        let stack ← popResult result v.stack
        if position ≠ body.length ∨ outer ≠ [] then throw .invalidCode
        else pure { position, stack, controls := outer, ended := true }
      -- The height is compared, and the types below it are not.
      else if v.stack.length ≠ control.height then throw .invalidStack
      else pure { v with position, controls := outer }
  | .drop =>
    match v.stack with
    | [] => throw .invalidStack
    | _ :: stack => pure { v with position, stack }
  | .call =>
    let (index, position) ← Cursor.lebU32 body position
    if module.importCount ≤ index.toNat then throw .invalidCode
    else
      match module.imports.get index.toNat with
      | none => throw .invalidImport
      | some target =>
        -- Any import of `log` will do, whatever its index.
        if target ≠ .log then throw .invalidImport
        else
          let stack ← pop v.stack .i32
          let stack ← pop stack .i32
          let stack ← push stack .i32
          pure { v with position, stack }
  | .load =>
    if module.memory = false then throw .invalidMemory
    else
      let (align, position) ← Cursor.lebU32 body position
      if 2 < align.toNat then throw .invalidMemory
      else
        -- The offset is read over; the bounds are the interpreter's business.
        let (_, position) ← Cursor.lebU32 body position
        let stack ← pop v.stack .i32
        let stack ← push stack .i32
        pure { v with position, stack }
  | .store =>
    if module.memory = false then throw .invalidMemory
    else
      let (align, position) ← Cursor.lebU32 body position
      if 2 < align.toNat then throw .invalidMemory
      else
        let (_, position) ← Cursor.lebU32 body position
        let stack ← pop v.stack .i32
        let stack ← pop stack .i32
        pure { v with position, stack }
  | .i32Const =>
    let (_, position) ← Cursor.lebI32 body position
    let stack ← push v.stack .i32
    pure { v with position, stack }
  | .i64Const =>
    let (_, position) ← Cursor.lebI64 body position
    let stack ← push v.stack .i64
    pure { v with position, stack }
  | .eqz =>
    let stack ← pop v.stack .i32
    let stack ← push stack .i32
    pure { v with position, stack }
  | .arith _ =>
    let stack ← pop v.stack .i32
    let stack ← pop stack .i32
    let stack ← push stack .i32
    pure { v with position, stack }
  | .i64Add =>
    let stack ← pop v.stack .i64
    let stack ← pop stack .i64
    let stack ← push stack .i64
    pure { v with position, stack }
  | .localAccess => throw .unsupportedOpcode
  | .other => throw .unsupportedOpcode

/-- The verifier's loop. Every turn takes at least one byte, so as many turns
    as there are bytes are enough. -/
def verifyLoop (module : Module) (result : Option ValType) (body : List UInt8) :
    Nat → Verifier → Except Error Verifier
  | 0, v => pure v
  | fuel + 1, v =>
    if v.position = body.length then pure v
    else do
      let v ← verifyStep module result body v
      verifyLoop module result body fuel v

/-- The verifier after the empty list of locals, which ends at `position`. -/
def Verifier.start (position : Nat) : Verifier :=
  { position, stack := [], controls := [{ kind := .loop, height := 0, hasElse := false }],
    ended := false }

def verifyBody (module : Module) (body : List UInt8) (typeIndex : Nat) : Except Error Unit := do
  let signature := module.types.get typeIndex
  let (locals, position) ← Cursor.count body 0 0
  if locals ≠ 0 then throw .invalidCode
  else
    let v ← verifyLoop module signature.result body body.length (Verifier.start position)
    if v.ended then pure () else throw .invalidCode

/-- An instruction with its operands. -/
inductive Instr where
  | nop
  | control (kind : ControlKind)
  | elseArm
  | endBlock
  | drop
  | call (index : BitVec 32)
  | load (align offset : BitVec 32)
  | store (align offset : BitVec 32)
  | i32Const (value : BitVec 32)
  | i64Const (value : BitVec 64)
  | eqz
  | arith (operation : Arith)
  | i64Add

def Instr.opcode : Instr → Opcode
  | .nop => .nop
  | .control kind => .control kind
  | .elseArm => .elseArm
  | .endBlock => .endBlock
  | .drop => .drop
  | .call _ => .call
  | .load _ _ => .load
  | .store _ _ => .store
  | .i32Const _ => .i32Const
  | .i64Const _ => .i64Const
  | .eqz => .eqz
  | .arith operation => .arith operation
  | .i64Add => .i64Add

/-- The operands of the instruction stand from `p` up to `p'`. -/
def Instr.Reads (body : List UInt8) (p p' : Nat) : Instr → Prop
  | .control _ => body[p]? = some 0x40 ∧ p' = p + 1
  | .call index => Cursor.lebU32 body p = .ok (index, p')
  | .load align offset => ∃ q, Cursor.lebU32 body p = .ok (align, q) ∧
      Cursor.lebU32 body q = .ok (offset, p')
  | .store align offset => ∃ q, Cursor.lebU32 body p = .ok (align, q) ∧
      Cursor.lebU32 body q = .ok (offset, p')
  | .i32Const value => Cursor.lebI32 body p = .ok (value, p')
  | .i64Const value => Cursor.lebI64 body p = .ok (value, p')
  | _ => p' = p

/-- The opcode at a position, if there is a byte there. -/
def opcodeAt (body : List UInt8) (p : Nat) : Option Opcode :=
  body[p]?.map Opcode.ofByte

/-- The instruction stands from `p` up to `p'`. -/
structure Fetch (body : List UInt8) (p : Nat) (i : Instr) (p' : Nat) : Prop where
  opcode : opcodeAt body p = some i.opcode
  reads : i.Reads body (p + 1) p'

/-- The operand types an instruction takes, topmost first, and the ones it
    leaves. `drop` takes any one, and the others move between blocks. -/
def Instr.operands : Instr → Option (List ValType × List ValType)
  | .nop => some ([], [])
  | .call _ => some ([.i32, .i32], [.i32])
  | .load _ _ => some ([.i32], [.i32])
  | .store _ _ => some ([.i32, .i32], [])
  | .i32Const _ => some ([], [.i32])
  | .i64Const _ => some ([], [.i64])
  | .eqz => some ([.i32], [.i32])
  | .arith _ => some ([.i32, .i32], [.i32])
  | .i64Add => some ([.i64, .i64], [.i64])
  | _ => none

/-- The operand types a block takes on entry. -/
def ControlKind.takes : ControlKind → List ValType
  | .conditional => [.i32]
  | _ => []

/-- What one step of the verifier can do. -/
inductive Checks (result : Option ValType) (body : List UInt8) (v : Verifier) :
    Verifier → Prop where
  | plain {i : Instr} {p : Nat} {takes leaves rest : List ValType}
      (fetch : Fetch body v.position i p) (operands : i.operands = some (takes, leaves))
      (stack : v.stack = takes ++ rest) (room : leaves ≠ [] → rest.length ≠ maxStack) :
      Checks result body v { v with position := p, stack := leaves ++ rest }
  | drop {p : Nat} {top : ValType} {rest : List ValType} (fetch : Fetch body v.position .drop p)
      (stack : v.stack = top :: rest) : Checks result body v { v with position := p, stack := rest }
  | control {kind : ControlKind} {p : Nat} {rest : List ValType}
      (fetch : Fetch body v.position (.control kind) p) (stack : v.stack = kind.takes ++ rest)
      (room : v.controls.length ≠ maxControl) :
      Checks result body v { v with
        position := p
        stack := rest
        controls := { kind, height := rest.length, hasElse := false } :: v.controls }
  | elseArm {p : Nat} {control : Control} {outer : List Control}
      (fetch : Fetch body v.position .elseArm p) (controls : v.controls = control :: outer)
      (kind : control.kind = .conditional) (first : control.hasElse = false)
      (height : v.stack.length = control.height) :
      Checks result body v { v with
        position := p
        controls := { control with hasElse := true } :: outer }
  | endBlock {p : Nat} {control : Control} {outer : List Control}
      (fetch : Fetch body v.position .endBlock p) (controls : v.controls = control :: outer)
      (kind : control.kind ≠ .loop) (height : v.stack.length = control.height) :
      Checks result body v { v with position := p, controls := outer }
  | finish {p : Nat} {control : Control} {rest : List ValType}
      (fetch : Fetch body v.position .endBlock p) (controls : v.controls = [control])
      (kind : control.kind = .loop) (stack : v.stack = result.toList ++ rest)
      (last : p = body.length) :
      Checks result body v { position := p, stack := rest, controls := [], ended := true }

variable {stack rest : List ValType}

theorem pop_eq_ok {expected : ValType} :
    pop stack expected = .ok rest ↔ stack = expected :: rest := by
  cases stack with
  | nil => simp [pop]
  | cons top tail =>
    by_cases htop : top = expected
    · subst htop
      simp [pop]
    · simp [pop, htop]

theorem push_eq_ok {stack stack' : List ValType} {value : ValType} :
    push stack value = .ok stack' ↔ stack.length ≠ maxStack ∧ value :: stack = stack' := by
  simp [push]

theorem popCondition_eq_ok {kind : ControlKind} :
    popCondition kind stack = .ok rest ↔ stack = kind.takes ++ rest := by
  cases kind with
  | conditional => exact pop_eq_ok
  | block => exact pure_eq_ok
  | loop => exact pure_eq_ok

variable {result : Option ValType}

theorem popResult_eq_ok : popResult result stack = .ok rest ↔ stack = result.toList ++ rest := by
  cases result with
  | none => exact pure_eq_ok
  | some type => exact pop_eq_ok

variable {body : List UInt8}

/-- A step of the verifier is one of those listed: the cases follow its
    dispatch on the opcode. -/
theorem verifyStep_checks {module : Module} {v v' : Verifier}
    (h : verifyStep module result body v = .ok v') : Checks result body v v' := by
  -- The step read a byte. What it did then depends on the opcode of that byte, and
  -- a branch that throws cannot have led to a next state.
  rcases except_bind_ok h with ⟨⟨byte, position⟩, hread, h⟩
  rcases Cursor.byte_eq_ok.mp hread with ⟨hbyte, rfl⟩
  have hopcode : ∀ op, Opcode.ofByte byte = op → opcodeAt body v.position = some op := by
    intro op hop
    rw [opcodeAt, hbyte, Option.map_some, hop]
  cases hop : Opcode.ofByte byte <;>
    simp only [hop, except_bind_eq_ok, ite_throw_eq_ok, pure_eq_ok, throw_ne_ok, pop_eq_ok,
      push_eq_ok, popCondition_eq_ok, Cursor.byte_eq_ok, Prod.exists] at h
  case nop =>
    subst h
    exact Checks.plain (i := .nop) ⟨hopcode _ hop, rfl⟩ rfl rfl (fun h => absurd rfl h)
  case control kind =>
    rcases h with ⟨stack, hpop, blockType, position, ⟨hblock, rfl⟩, hok, rfl⟩
    rw [not_or, not_not] at hok
    rw [hok.1] at hblock
    exact Checks.control ⟨hopcode _ hop, hblock, rfl⟩ hpop hok.2
  case elseArm =>
    cases hcontrols : v.controls with
    | nil => simp [hcontrols] at h
    | cons control outer =>
      simp only [hcontrols, ite_throw_eq_ok, pure_eq_ok, not_or, not_not, Bool.not_eq_true] at h
      rcases h with ⟨⟨hkind, hfirst⟩, hheight, rfl⟩
      exact Checks.elseArm ⟨hopcode _ hop, rfl⟩ hcontrols hkind hfirst hheight
  case endBlock =>
    cases hcontrols : v.controls with
    | nil => simp [hcontrols] at h
    | cons control outer =>
      by_cases hkind : control.kind = .loop
      -- The end of the body, which must be the last byte and leave no block open.
      · simp [hcontrols, if_pos hkind, popResult_eq_ok] at h
        rcases h with ⟨stack, hpop, ⟨hlast, rfl⟩, rfl⟩
        exact Checks.finish ⟨hopcode _ hop, rfl⟩ hcontrols hkind hpop hlast
      · simp only [hcontrols, if_neg hkind, ite_throw_eq_ok, pure_eq_ok, not_not] at h
        rcases h with ⟨hheight, rfl⟩
        exact Checks.endBlock ⟨hopcode _ hop, rfl⟩ hcontrols hkind hheight
  case drop =>
    cases hstack : v.stack with
    | nil => simp [hstack] at h
    | cons top rest =>
      simp [hstack] at h
      subst h
      exact Checks.drop ⟨hopcode _ hop, rfl⟩ hstack
  case call =>
    -- The index is in range, the slot is filled, and it holds `log`.
    rcases h with ⟨index, position, hleb, -, h⟩
    cases himport : module.imports.get index.toNat with
    | none => simp [himport] at h
    | some target =>
      simp only [himport, ite_throw_eq_ok, except_bind_eq_ok, pop_eq_ok, push_eq_ok, pure_eq_ok] at h
      rcases h with ⟨-, stack, hpop, stack', rfl, _, ⟨hroom, rfl⟩, rfl⟩
      exact Checks.plain (i := .call index) ⟨hopcode _ hop, hleb⟩ rfl hpop (fun _ => hroom)
  case load =>
    rcases h with ⟨-, align, middle, halign, -, offset, position, hoffset, stack, hpop, _,
      ⟨hroom, rfl⟩, rfl⟩
    exact Checks.plain (i := .load align offset) ⟨hopcode _ hop, middle, halign, hoffset⟩ rfl hpop
      (fun _ => hroom)
  case store =>
    -- A store pushes nothing, so it needs no room.
    rcases h with ⟨-, align, middle, halign, -, offset, position, hoffset, stack, hpop, _, rfl, rfl⟩
    exact Checks.plain (i := .store align offset) ⟨hopcode _ hop, middle, halign, hoffset⟩ rfl hpop
      (fun h => absurd rfl h)
  case i32Const =>
    rcases h with ⟨value, position, hleb, _, ⟨hroom, rfl⟩, rfl⟩
    exact Checks.plain (i := .i32Const value) ⟨hopcode _ hop, hleb⟩ rfl rfl (fun _ => hroom)
  case i64Const =>
    rcases h with ⟨value, position, hleb, _, ⟨hroom, rfl⟩, rfl⟩
    exact Checks.plain (i := .i64Const value) ⟨hopcode _ hop, hleb⟩ rfl rfl (fun _ => hroom)
  case eqz =>
    rcases h with ⟨stack, hpop, _, ⟨hroom, rfl⟩, rfl⟩
    exact Checks.plain (i := .eqz) ⟨hopcode _ hop, rfl⟩ rfl hpop (fun _ => hroom)
  case arith operation =>
    rcases h with ⟨stack, hpop, stack', rfl, _, ⟨hroom, rfl⟩, rfl⟩
    exact Checks.plain (i := .arith operation) ⟨hopcode _ hop, rfl⟩ rfl hpop (fun _ => hroom)
  case i64Add =>
    rcases h with ⟨stack, hpop, stack', rfl, _, ⟨hroom, rfl⟩, rfl⟩
    exact Checks.plain (i := .i64Add) ⟨hopcode _ hop, rfl⟩ rfl hpop (fun _ => hroom)

/-- The operands of an instruction end no earlier than they start, and not
    past the end of the bytes. -/
theorem Instr.reads_le {i : Instr} {p p' : Nat} (h : i.Reads body p p') (hp : p ≤ body.length) :
    p ≤ p' ∧ p' ≤ body.length := by
  cases i with
  | control kind =>
    have hlt := (List.getElem?_eq_some_iff.mp h.1).1
    rw [h.2]
    omega
  | call index => exact ⟨(Cursor.lebU32_leb h).lt.le, (Cursor.lebU32_leb h).le_length⟩
  | load | store =>
    rcases h with ⟨q, halign, hoffset⟩
    exact ⟨((Cursor.lebU32_leb halign).lt.trans (Cursor.lebU32_leb hoffset).lt).le,
      (Cursor.lebU32_leb hoffset).le_length⟩
  | i32Const | i64Const =>
    exact ⟨(Cursor.lebSigned_leb h).lt.le, (Cursor.lebSigned_leb h).le_length⟩
  -- The other instructions have no operands.
  | _ =>
    have hpp : p' = p := h
    rw [hpp]
    exact ⟨Nat.le_refl p, hp⟩

/-- An instruction takes at least one byte, and ends within the bytes. -/
theorem Fetch.bounds {p p' : Nat} {i : Instr} (h : Fetch body p i p') :
    p < p' ∧ p' ≤ body.length := by
  rcases Option.map_eq_some_iff.mp h.opcode with ⟨byte, hbyte, _⟩
  exact Instr.reads_le h.reads (List.getElem?_eq_some_iff.mp hbyte).1

/-- The instruction a step of the verifier read. -/
theorem Checks.fetched {v v' : Verifier} (h : Checks result body v v') :
    ∃ i, Fetch body v.position i v'.position := by
  cases h with
  | plain fetch | drop fetch | control fetch | elseArm fetch | endBlock fetch | finish fetch =>
    exact ⟨_, fetch⟩

end Wasm

end Norx
