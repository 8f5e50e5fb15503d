import Norx.Wasm.Blocks

/-!
# The Scan for the End of a Block

The interpreter finds the `else` and the `end` of a block by reading the bytes
a second time, with its own idea of which instructions have operands. It skips
the operands of a call, a load, a store and an `i32.const`, and those of the
local instructions the verifier rejects, but not the operand of an
`i64.const`. That operand is read as instructions.

Of the operand's bytes only the last can do anything, because no instruction
has the top bit. What the last byte does is a matter of the instruction it
looks like. An instruction without operands is passed over, and no harm is
done. One that opens, splits or closes a block is counted as one: the byte is
*misread*. One with operands takes the bytes after it for its own: it
*swallows* the next instruction, and the scan may be out of step with the
verifier for a while.

## Theorems

* `scan_step`: The scan follows a step of the verifier.
* `scan_short`: A scan that counted an `end` too many stops too early.
* `scan_closes`: The scan finds the matched positions if nothing is misread, and
  only then.
* `scan_agrees_iff`: The scan agrees with the verifier exactly where nothing is
  misread, in a block where nothing swallows.
-/

namespace Norx

namespace Wasm

open List Option

/-- A failed read is a trap of one kind to the interpreter. -/
def orMismatch {α : Type} (x : Except Error α) : Except Trap α :=
  match x with
  | .ok a => .ok a
  | .error _ => .error .typeMismatch

/-- The loop of the scan. Every turn takes at least one byte. -/
def scan (bytes : List UInt8) :
    Nat → Nat → Nat → Option Nat → Except Trap (Option Nat × Nat)
  | 0, _, _, _ => throw .typeMismatch
  | fuel + 1, position, depth, elsePosition => do
    let (opcode, next) ← orMismatch (Cursor.byte bytes position)
    match Opcode.ofByte opcode with
    | .control _ =>
      let (blockType, next) ← orMismatch (Cursor.byte bytes next)
      if blockType ≠ 0x40 then throw .typeMismatch
      else scan bytes fuel next (depth + 1) elsePosition
    | .elseArm =>
      if depth = 0 then
        if elsePosition.isSome then throw .typeMismatch
        else scan bytes fuel next depth (some position)
      else scan bytes fuel next depth elsePosition
    | .endBlock =>
      if depth = 0 then pure (elsePosition, position)
      else scan bytes fuel next (depth - 1) elsePosition
    | .call | .localAccess =>
      let (_, next) ← orMismatch (Cursor.lebU32 bytes next)
      scan bytes fuel next depth elsePosition
    | .load | .store =>
      let (_, next) ← orMismatch (Cursor.lebU32 bytes next)
      let (_, next) ← orMismatch (Cursor.lebU32 bytes next)
      scan bytes fuel next depth elsePosition
    | .i32Const =>
      let (_, next) ← orMismatch (Cursor.lebI32 bytes next)
      scan bytes fuel next depth elsePosition
    -- The source has no case for `i64.const`: the scan goes on inside its operand.
    | .unreachable | .nop | .drop | .i64Const | .eqz | .arith _ | .i64Add | .other =>
      scan bytes fuel next depth elsePosition

/-- The positions of the `else`, if there is one, and of the `end` of the
    block whose contents start at `start`. One turn more than there are bytes
    reads past the last of them, so the loop is never cut short. -/
def findControlEnd (bytes : List UInt8) (start : Nat) : Except Trap (Option Nat × Nat) :=
  scan bytes (bytes.length - start + 1) start 0 none

/-- The scan takes the bytes after such an instruction for its operands. -/
def Opcode.HasOperands : Opcode → Prop
  | .call | .localAccess | .load | .store | .i32Const => True
  | _ => False

/-- The verifier is at an `i64.const`, and the last byte of the operand is the
    opcode `op`. -/
def LastDigit (body : List UInt8) (w : Verifier) (op : Opcode) : Prop :=
  ∃ value p, Fetch body w.position (.i64Const value) p ∧ opcodeAt body (p - 1) = some op

/-- The scan takes the instruction after an operand for an operand. -/
def Swallows (body : List UInt8) (w : Verifier) : Prop :=
  ∃ op, LastDigit body w op ∧ op.HasOperands

/-- The scan of the block `depth` entries high takes the end of an operand for
    an instruction that opens, splits or closes a block. An `else` inside an
    inner block is none of its business. -/
def Misread (body : List UInt8) (depth : Nat) (w : Verifier) : Prop :=
  ∃ op, LastDigit body w op ∧ ((∃ kind, op = .control kind) ∨ op = .endBlock ∨
    (op = .elseArm ∧ w.controls.length = depth))

variable {op : Opcode}

section Turns

variable {bytes : List UInt8} {p p' : Nat} (fuel depth : Nat) (els : Option Nat)

@[simp] theorem orMismatch_ok {α β : Type} {a : α} {f : α → Except Trap β} :
    (orMismatch (.ok a) >>= f) = f a := rfl

attribute [local simp] scan

variable {kind : ControlKind}

theorem scan_control (h : Fetch bytes p (.control kind) p') :
    scan bytes (fuel + 1) p depth els = scan bytes fuel p' (depth + 1) els := by
  rcases map_eq_some_iff.mp h.opcode with ⟨byte, hbyte, hop⟩
  rcases h.reads with ⟨hblock, rfl⟩
  simp [Cursor.byte_eq_ok.mpr ⟨hbyte, rfl⟩, hop, Instr.opcode,
    Cursor.byte_eq_ok.mpr ⟨hblock, rfl⟩]

/-- An opening opcode that is not followed by a block type ends the scan. -/
theorem scan_control_bad (h : opcodeAt bytes p = some (.control kind))
    (hblock : bytes[p + 1]? ≠ some 0x40) :
    scan bytes (fuel + 1) p depth els = .error .typeMismatch := by
  rcases map_eq_some_iff.mp h with ⟨byte, hbyte, hop⟩
  cases hnext : bytes[p + 1]? with
  | none => simp [Cursor.byte, hbyte, hop, hnext]; rfl
  | some blockType =>
    have hbad : blockType ≠ 0x40 := fun heq => hblock (hnext.trans (congrArg some heq))
    simp [Cursor.byte, hbyte, hop, hnext, hbad]
    rfl

theorem scan_else (h : opcodeAt bytes p = some .elseArm) :
    scan bytes (fuel + 1) p depth els =
      if depth = 0 then
        if els.isSome then throw .typeMismatch else scan bytes fuel (p + 1) depth (some p)
      else scan bytes fuel (p + 1) depth els := by
  rcases map_eq_some_iff.mp h with ⟨byte, hbyte, hop⟩
  simp [Cursor.byte, hbyte, hop]

theorem scan_end (h : opcodeAt bytes p = some .endBlock) :
    scan bytes (fuel + 1) p depth els =
      if depth = 0 then pure (els, p) else scan bytes fuel (p + 1) (depth - 1) els := by
  rcases map_eq_some_iff.mp h with ⟨byte, hbyte, hop⟩
  simp [Cursor.byte, hbyte, hop]

/-- A byte that is no instruction with an effect on the scan is passed over. -/
theorem scan_inert (h : opcodeAt bytes p = some op) (hoperands : ¬ op.HasOperands)
    (hcontrol : ∀ kind, op ≠ .control kind) (hend : op ≠ .endBlock)
    (helse : op = .elseArm → depth ≠ 0) :
    scan bytes (fuel + 1) p depth els = scan bytes fuel (p + 1) depth els := by
  cases op with
  | control kind => exact absurd rfl (hcontrol kind)
  | endBlock => exact absurd rfl hend
  | elseArm => rw [scan_else fuel depth els h, if_neg (helse rfl)]
  | call | localAccess | load | store | i32Const => exact absurd trivial hoperands
  | _ =>
    rcases map_eq_some_iff.mp h with ⟨byte, hbyte, hop⟩
    simp [Cursor.byte, hbyte, hop]

/-- The operands the scan knows of are skipped. -/
theorem scan_operands {i : Instr} (h : Fetch bytes p i p') (hi : i.opcode.HasOperands) :
    scan bytes (fuel + 1) p depth els = scan bytes fuel p' depth els := by
  rcases map_eq_some_iff.mp h.opcode with ⟨byte, hbyte, hop⟩
  have hreads := h.reads
  rw [scan, Cursor.byte_eq_ok.mpr ⟨hbyte, rfl⟩]
  cases i with
  | call | i32Const =>
    simp only [Instr.Reads] at hreads
    simp [hop, Instr.opcode, hreads]
  | load | store =>
    rcases hreads with ⟨q, halign, hoffset⟩
    simp [hop, Instr.opcode, halign, hoffset]
  | _ => exact absurd hi (by simp [Instr.opcode, Opcode.HasOperands])

/-- The digits of a number up to the last are passed over one at a time. -/
theorem scan_digits (h : Cursor.Leb bytes p p') :
    scan bytes (fuel + (p' - p)) p depth els = scan bytes (fuel + 1) (p' - 1) depth els := by
  induction h with
  | last _ _ => rw [Nat.add_sub_cancel_left, Nat.add_sub_cancel]
  | @more p p' byte hbyte hmore rest ih =>
    have hlt := rest.lt
    have hop : opcodeAt bytes p = some .other := by
      rw [opcodeAt, hbyte, map_some, Opcode.ofByte_of_continues hmore]
    rw [show fuel + (p' - p) = fuel + (p' - (p + 1)) + 1 by omega,
      scan_inert _ depth els hop (fun h => h) (by rintro _ ⟨⟩) (by rintro ⟨⟩) (by rintro ⟨⟩), ih]

/-- Over an `i64.const` the scan comes to the last byte of its operand. -/
theorem scan_i64Const {value : BitVec 64} (h : Fetch bytes p (.i64Const value) p') :
    scan bytes (fuel + (p' - p)) p depth els = scan bytes (fuel + 1) (p' - 1) depth els := by
  have hleb := Cursor.lebSigned_leb h.reads
  have hlt := hleb.lt
  rw [show fuel + (p' - p) = fuel + (p' - (p + 1)) + 1 by omega,
    scan_inert _ depth els h.opcode (fun h => h) nofun nofun nofun, scan_digits fuel depth els hleb]

end Turns

variable {module : Module} {result : Option ValType} {body : List UInt8}

/-- Nothing about the instruction the verifier is at misleads a scan that is
    `depth` blocks deep. -/
def Clear (body : List UInt8) (depth : Nat) (w : Verifier) : Prop :=
  ∀ op, LastDigit body w op → ¬ op.HasOperands ∧ (∀ kind, op ≠ .control kind) ∧
    op ≠ .endBlock ∧ (op = .elseArm → depth ≠ 0)

variable {v : Verifier} {depth : Nat}

/-- The scan passes over an instruction with plain operands. -/
theorem scan_plain {i : Instr} {p : Nat} {takes leaves : List ValType}
    (fetch : Fetch body v.position i p) (operands : i.operands = some (takes, leaves))
    (hclear : Clear body depth v) (fuel : Nat) (hfuel : p ≤ v.position + fuel) :
    ∃ fuel', v.position + fuel ≤ p + fuel' ∧
      ∀ els, scan body fuel v.position depth els = scan body fuel' p depth els := by
  have hbounds := fetch.bounds
  by_cases hoperands : i.opcode.HasOperands
  · refine ⟨fuel - 1, by omega, fun els => ?_⟩
    rw [← scan_operands (fuel - 1) depth els fetch hoperands, Nat.sub_add_cancel (by omega)]
  · cases i with
    | i64Const value =>
      -- Up to the last byte of the operand the scan sees no opcode, and that byte is clear.
      have hleb := Cursor.lebSigned_leb fetch.reads
      rcases hleb.last_byte with ⟨byte, hbyte⟩
      have hop : opcodeAt body (p - 1) = some (Opcode.ofByte byte) := by
        rw [opcodeAt, hbyte, map_some]
      rcases hclear _ ⟨value, p, fetch, hop⟩ with ⟨hnone, hcontrol, hend, helse⟩
      refine ⟨fuel - (p - v.position), by omega, fun els => ?_⟩
      have hskip := scan_i64Const (fuel - (p - v.position)) depth els fetch
      rw [Nat.sub_add_cancel (by omega)] at hskip
      rw [hskip, scan_inert _ depth els hop hnone hcontrol hend helse,
        Nat.sub_add_cancel (by omega)]
    | control | elseArm | endBlock | drop => cases operands
    | call | load | store | i32Const => exact absurd trivial hoperands
    | _ =>
      have hp : p = v.position + 1 := fetch.reads
      refine ⟨fuel - 1, by omega, fun els => ?_⟩
      rw [hp, ← scan_inert (fuel - 1) depth els fetch.opcode hoperands (by rintro _ ⟨⟩)
        (by rintro ⟨⟩) (by rintro ⟨⟩), Nat.sub_add_cancel (by omega)]

variable {v' : Verifier}

/-- The scan follows a step of the verifier over an instruction that does not
    mislead it: its depth moves as the control stack does, it notes an `else`
    at its own depth, and it stops at an `end` there. -/
theorem scan_step (hstep : verifyStep module result body v = .ok v') (hclear : Clear body depth v)
    (fuel : Nat) (hfuel : v'.position ≤ v.position + fuel) :
    ∃ fuel', v.position + fuel ≤ v'.position + fuel' ∧
      ((opcodeAt body v.position ≠ some .elseArm ∧ opcodeAt body v.position ≠ some .endBlock ∧
          ∃ depth', depth + v'.controls.length = depth' + v.controls.length ∧
          ∀ els, scan body fuel v.position depth els = scan body fuel' v'.position depth' els) ∨
        (opcodeAt body v.position = some .elseArm ∧ v'.controls.length = v.controls.length ∧
          ∀ els, scan body fuel v.position depth els =
            if depth = 0 then
              if els.isSome then throw .typeMismatch
              else scan body fuel' v'.position depth (some v.position)
            else scan body fuel' v'.position depth els) ∨
        (opcodeAt body v.position = some .endBlock ∧
          v'.controls.length + 1 = v.controls.length ∧
          ∀ els, scan body fuel v.position depth els =
            if depth = 0 then pure (els, v.position)
            else scan body fuel' v'.position (depth - 1) els)) := by
  -- Every instruction but an `i64.const` costs the scan one turn.
  have hpos := step_position hstep
  have hturn : fuel - 1 + 1 = fuel := Nat.sub_add_cancel (by omega)
  cases verifyStep_checks hstep with
  | plain fetch operands _ _ =>
    have hop := plain_opcode operands
    rcases scan_plain fetch operands hclear fuel hfuel with ⟨fuel', hleft, hscan⟩
    exact ⟨fuel', hleft, .inl ⟨fetch.opcode_ne hop.1, fetch.opcode_ne hop.2.1, depth, rfl,
      hscan⟩⟩
  | drop fetch _ =>
    have hp := fetch.reads
    refine ⟨fuel - 1, by dsimp only at *; omega, .inl ⟨fetch.opcode_ne nofun,
      fetch.opcode_ne nofun, depth, rfl, fun els => ?_⟩⟩
    rw [← hturn, scan_inert _ depth els fetch.opcode (fun h => h) nofun nofun nofun, hp, hturn]
  | control fetch _ _ =>
    refine ⟨fuel - 1, by dsimp only at *; omega, .inl ⟨fetch.opcode_ne nofun,
      fetch.opcode_ne nofun, depth + 1, ?_, fun els => ?_⟩⟩
    · rw [length_cons]
      omega
    · rw [← scan_control (fuel - 1) depth els fetch, hturn]
  | elseArm fetch controls _ _ _ =>
    have hp := fetch.reads
    refine ⟨fuel - 1, by dsimp only at *; omega,
      .inr (.inl ⟨fetch.opcode, ?_, fun els => ?_⟩)⟩
    · rw [controls, length_cons, length_cons]
    · rw [← hturn, scan_else _ depth els fetch.opcode, hp, hturn]
  | endBlock fetch controls | finish fetch controls =>
    have hp := fetch.reads
    refine ⟨fuel - 1, by dsimp only at *; omega,
      .inr (.inr ⟨fetch.opcode, ?_, fun els => ?_⟩)⟩
    · rw [controls, length_cons]
    · rw [← hturn, scan_end _ depth els fetch.opcode, hp, hturn]

variable {els : Option Nat} {e : Nat} {extent : List Verifier}

/-- What is closed lies ahead. -/
theorem Closes.le (h : Closes module result body depth v els e extent) :
    v.position ≤ e ∧ ∀ q, els = some q → v.position ≤ q := by
  induction h with
  | here _ _ => exact ⟨Nat.le_refl _, nofun⟩
  | elseArm _ _ step _ ih | inside _ step _ ih =>
    have hpos := step_position step
    grind

variable {w : Verifier} {d : Nat}

theorem clear_of_not_misread (hd : w.controls.length = depth + d) (hswallows : ¬ Swallows body w)
    (hmisread : ¬ Misread body depth w) : Clear body d w := by
  intro op hlast
  refine ⟨fun h => hswallows ⟨op, hlast, h⟩, fun kind h => hmisread ⟨op, hlast, .inl ⟨kind, h⟩⟩,
    fun h => hmisread ⟨op, hlast, .inr (.inl h)⟩, fun h hzero => ?_⟩
  exact hmisread ⟨op, hlast, .inr (.inr ⟨h, by omega⟩)⟩

/-- Only an `i64.const` misleads the scan. -/
theorem clear_of_opcode (h : opcodeAt body w.position ≠ some .i64Const) : Clear body d w := by
  intro op hlast
  rcases hlast with ⟨value, p, fetch, _⟩
  exact absurd fetch.opcode h

/-- The scan follows the verifier over an instruction that neither splits nor
    closes the block it scans, and stays as deep in it as the verifier. -/
theorem scan_inside
    (opcode : v.controls.length = depth → opcodeAt body v.position ≠ some .elseArm ∧ opcodeAt body v.position ≠ some .endBlock)
    (step : verifyStep module result body v = .ok v') (hd : v.controls.length = depth + d)
    (hclear : Clear body d v) (fuel : Nat) (hfuel : v'.position ≤ v.position + fuel) :
    ∃ fuel' d', v.position + fuel ≤ v'.position + fuel' ∧ v'.controls.length = depth + d' ∧
      ∀ acc, scan body fuel v.position d acc = scan body fuel' v'.position d' acc := by
  rcases scan_step step hclear fuel hfuel with
    ⟨fuel', hleft, ⟨_, _, d', hd', hscan⟩ | ⟨helse, hlength, hscan⟩ | ⟨hend, hlength, hscan⟩⟩
  · exact ⟨fuel', d', hleft, by omega, hscan⟩
  · -- An `else` or an `end` here belongs to an inner block, so the scan is deeper than zero.
    have hne : d ≠ 0 := fun hzero => (opcode (by omega)).1 helse
    refine ⟨fuel', d, hleft, by omega, fun acc => ?_⟩
    rw [hscan, if_neg hne]
  · have hne : d ≠ 0 := fun hzero => (opcode (by omega)).2 hend
    refine ⟨fuel', d - 1, hleft, by omega, fun acc => ?_⟩
    rw [hscan, if_neg hne]

/-- At the `else` of the block itself the scan notes the position. -/
theorem scan_split (opcode : opcodeAt body v.position = some .elseArm)
    (step : verifyStep module result body v = .ok v') (fuel : Nat)
    (hfuel : v'.position ≤ v.position + fuel) :
    ∃ fuel', v.position + fuel ≤ v'.position + fuel' ∧
      v'.controls.length = v.controls.length ∧
      scan body fuel v.position 0 none = scan body fuel' v'.position 0 (some v.position) := by
  have hother : opcodeAt body v.position ≠ some .i64Const := by
    rw [opcode]
    exact nofun
  rcases scan_step step (clear_of_opcode hother) fuel hfuel with
    ⟨fuel', hleft, ⟨hnot, _⟩ | ⟨_, hlength, hscan⟩ | ⟨hnot, _⟩⟩
  · exact absurd opcode hnot
  · refine ⟨fuel', hleft, hlength, ?_⟩
    rw [hscan, if_pos rfl, isSome_none, if_neg Bool.false_ne_true]
  · exact absurd (opcode.symm.trans hnot) nofun

/-- An `else` once noted is the one returned. -/
theorem scan_noted {bytes : List UInt8} {x : Nat} {y : Option Nat} : ∀ (fuel p depth : Nat),
    scan bytes fuel p depth (some x) = .ok (y, e) → y = some x := by
  -- A second `else` at the block's own depth is an error, and no other turn touches it.
  intro fuel
  induction fuel with
  | zero => exact fun _ _ h => absurd h throw_ne_ok
  | succ fuel ih =>
    intro p depth h
    simp only [scan, except_bind_eq_ok] at h
    rcases h with ⟨⟨byte, next⟩, _, h⟩
    split at h <;> grind

/-- The verifier is not at a byte that is no instruction. -/
theorem Closes.opcode_ne_other (h : Closes module result body depth v els e extent) :
    opcodeAt body v.position ≠ some .other := by
  cases h with
  | here opcode | elseArm opcode =>
    rw [opcode]
    exact nofun
  | inside _ step _ =>
    rcases (verifyStep_checks step).fetched with ⟨i, fetch⟩
    apply fetch.opcode_ne
    cases i <;> exact nofun

section LastDigit

variable (h : LastDigit body v op) (hstep : verifyStep module result body v = .ok v')

include h hstep

/-- An `i64.const` is one step of the verifier, and leaves the control stack
    as it is. -/
theorem LastDigit.step :
    (∃ value, Fetch body v.position (.i64Const value) v'.position) ∧
      opcodeAt body (v'.position - 1) = some op ∧ v'.controls = v.controls := by
  rcases h with ⟨value, p, fetch, hop⟩
  have hsame : ∀ {i : Instr} {p' : Nat}, Fetch body v.position i p' → p' = p := by
    intro i p' fetch'
    have hopcode := fetch.opcode.symm.trans fetch'.opcode
    cases i with
    | i64Const value' =>
      have hread : Cursor.lebI64 body (v.position + 1) = .ok (value, p) := fetch.reads
      have hread' : Cursor.lebI64 body (v.position + 1) = .ok (value', p') := fetch'.reads
      rw [hread] at hread'
      injection hread' with hread'
      injection hread' with _ hp
      exact hp.symm
    | _ => exact absurd hopcode nofun
  rcases (verifyStep_checks hstep).fetched with ⟨i, fetch'⟩
  rw [hsame fetch']
  refine ⟨⟨value, fetch⟩, hop, ?_⟩
  cases verifyStep_checks hstep with
  | plain _ _ _ _ => rfl
  | drop _ _ => rfl
  | control other | elseArm other | endBlock other | finish other =>
    exact absurd (fetch.opcode.symm.trans other.opcode) nofun

/-- Over an `i64.const` the scan comes to the last byte of its operand. -/
theorem LastDigit.skips (fuel : Nat) (hfuel : v'.position ≤ v.position + fuel) :
    ∃ fuel', v.position + fuel ≤ v'.position + fuel' ∧ ∀ d acc,
      scan body fuel v.position d acc = scan body (fuel' + 1) (v'.position - 1) d acc := by
  rcases (h.step hstep).1 with ⟨value, fetch⟩
  have hbounds := fetch.bounds
  refine ⟨fuel - (v'.position - v.position), by omega, fun d acc => ?_⟩
  rw [← scan_i64Const _ d acc fetch, Nat.sub_add_cancel (by omega)]

/-- What a scan that is not led astray into operands makes of the last byte of
    an operand: it fails, or it stops there, or it goes on at the next
    instruction, no deeper than before. -/
theorem LastDigit.scan_cases (hoperands : ¬ op.HasOperands)
    (hnext : opcodeAt body v'.position ≠ some .other) (fuel : Nat)
    (hfuel : v'.position ≤ v.position + fuel) (d : Nat) (acc : Option Nat) :
    scan body fuel v.position d acc = .error .typeMismatch ∨
    scan body fuel v.position d acc = .ok (acc, v'.position - 1) ∨
    ∃ fuel' d' acc', v.position + fuel ≤ v'.position + fuel' ∧ d' ≤ d ∧
      scan body fuel v.position d acc = scan body fuel' v'.position d' acc' := by
  rcases h.skips hstep fuel hfuel with ⟨fuel', hleft, hscan⟩
  have hop := (h.step hstep).2.1
  have hpos := step_position hstep
  have hback : v'.position - 1 + 1 = v'.position := Nat.sub_add_cancel (by omega)
  rw [hscan]
  cases op with
  | control kind =>
    -- The next byte is an opcode the verifier accepts, and the block type is none.
    refine .inl (scan_control_bad fuel' d acc hop ?_)
    rw [hback]
    intro hblock
    rw [opcodeAt, hblock] at hnext
    exact hnext rfl
  | endBlock =>
    rw [scan_end fuel' d acc hop, hback]
    by_cases hd : d = 0
    · rw [if_pos hd]
      exact .inr (.inl rfl)
    · rw [if_neg hd]
      exact .inr (.inr ⟨fuel', d - 1, acc, hleft, Nat.sub_le d 1, rfl⟩)
  | elseArm =>
    rw [scan_else fuel' d acc hop, hback]
    by_cases hd : d = 0
    · rw [if_pos hd]
      cases acc with
      | none => exact .inr (.inr ⟨fuel', d, _, hleft, Nat.le_refl d, rfl⟩)
      | some x => exact .inl rfl
    · rw [if_neg hd]
      exact .inr (.inr ⟨fuel', d, acc, hleft, Nat.le_refl d, rfl⟩)
  | _ =>
    rw [scan_inert fuel' d acc hop hoperands (by rintro _ ⟨⟩) (by rintro ⟨⟩) (by rintro ⟨⟩), hback]
    exact .inr (.inr ⟨fuel', d, acc, hleft, Nat.le_refl d, rfl⟩)

end LastDigit

/-- A scan less deep than the verifier's control stack stops before the end of
    the block, or fails. -/
theorem scan_short (h : Closes module result body depth v els e extent) :
    ∀ (d fuel : Nat) (acc x : Option Nat), depth + d < v.controls.length →
    e < v.position + fuel → (∀ w ∈ extent, ¬ Swallows body w) →
    scan body fuel v.position d acc ≠ .ok (x, e) := by
  induction h with
  -- At the `else` and the `end` of the block the verifier's depth is the block's own, and
  -- no scan is less deep than that.
  | here _ height =>
    intro d fuel acc x hd _ _
    omega
  | elseArm _ height _ _ _ =>
    intro d fuel acc x hd _ _
    omega
  | @inside v v' els e extent opcode step rest ih =>
    intro d fuel acc x hd hfuel hclean
    have hle := rest.le.1
    have hpos := step_position step
    have hrest : ∀ w ∈ extent, ¬ Swallows body w :=
      fun w hw => hclean w (mem_cons_of_mem _ hw)
    by_cases hclear : Clear body d v
    · rcases scan_step step hclear fuel (by omega) with
        ⟨fuel', hleft, ⟨_, _, d', hd', hscan⟩ | ⟨_, hlength, hscan⟩ | ⟨_, hlength, hscan⟩⟩
      · rw [hscan]
        exact ih d' fuel' acc x (by omega) (by omega) hrest
      · have hnoted := ih d fuel' (some v.position) x (by omega) (by omega) hrest
        have hsame := ih d fuel' acc x (by omega) (by omega) hrest
        grind
      · -- It goes on, or stops here, at an instruction before the `end`.
        have houter (hd : d ≠ 0) := ih (d - 1) fuel' acc x (by omega) (by omega) hrest
        grind
    · -- The instruction is an `i64.const` whose operand is misread.
      rw [Clear, not_forall] at hclear
      rcases hclear with ⟨op, hop⟩
      rw [Classical.not_imp] at hop
      have hlength := congrArg List.length (hop.1.step step).2.2
      have hnone : ¬ op.HasOperands := fun h => hclean v mem_cons_self ⟨op, hop.1, h⟩
      rcases hop.1.scan_cases step hnone rest.opcode_ne_other fuel (by omega) d acc with
        hscan | hscan | ⟨fuel', d', acc', hleft, hd', hscan⟩
      · rw [hscan]
        exact nofun
      · grind
      · rw [hscan]
        exact ih d' fuel' acc' x (by omega) (by omega) hrest

/-- A misread operand is in an `i64.const`, so not where a block is split or
    closed. -/
theorem Misread.opcode (h : Misread body depth w) : opcodeAt body w.position = some .i64Const := by
  rcases h with ⟨op, ⟨value, p, fetch, _⟩, _⟩
  exact fetch.opcode

/-- What follows a misread operand: the scan does not return what the
    verifier matched. -/
theorem misread_wrong (hmisread : Misread body depth v)
    (step : verifyStep module result body v = .ok v')
    (rest : Closes module result body depth v' els e extent) (d fuel : Nat) (acc : Option Nat)
    (hd : v.controls.length = depth + d) (hfuel : e < v.position + fuel)
    (hswallows : ∀ w ∈ extent, ¬ Swallows body w) :
    scan body fuel v.position d acc ≠ .ok (acc.or els, e) := by
  rcases hmisread with ⟨op, hlast, hop⟩
  have hle := rest.le
  have hpos := step_position step
  rcases hlast.step step with ⟨_, hopcode, hcontrols⟩
  have hlength := congrArg List.length hcontrols
  have hback : v'.position - 1 + 1 = v'.position := Nat.sub_add_cancel (by omega)
  rcases hlast.skips step fuel (by omega) with ⟨fuel', hleft, hscan⟩
  rw [hscan]
  rcases hop with ⟨kind, rfl⟩ | rfl | ⟨rfl, hdepth⟩
  · rw [scan_control_bad fuel' d acc hopcode]
    · rintro ⟨⟩
    · rw [hback]
      intro hblock
      apply rest.opcode_ne_other
      rw [opcodeAt, hblock]
      rfl
  · rw [scan_end fuel' d acc hopcode, hback]
    split
    · -- The operand's last byte is taken for the end of the block itself.
      grind
    · exact scan_short rest (d - 1) fuel' acc _ (by omega) (by omega) hswallows
  · rw [scan_else fuel' d acc hopcode, if_pos (by omega)]
    cases acc with
    | some x => rintro ⟨⟩
    | none =>
      -- The `else` noted is inside an operand, before any real one.
      intro heq
      have hnoted := scan_noted _ _ _ heq
      have hahead := hle.2 _ hnoted
      omega

/-- Where nothing is swallowed, the scan finds the matched positions exactly if
    nothing is misread. -/
theorem scan_closes (h : Closes module result body depth v els e extent) :
    ∀ (d fuel : Nat) (acc : Option Nat), v.controls.length = depth + d →
    (acc = none ∨ els = none) → e < v.position + fuel → (∀ w ∈ extent, ¬ Swallows body w) →
    (scan body fuel v.position d acc = .ok (acc.or els, e) ↔
      ∀ w ∈ extent, ¬ Misread body depth w) := by
  -- The scan is `d` blocks inside the one it scans, and has noted `acc`. It follows the
  -- verifier up to the first operand misread, and is wrong from there.
  induction h with
  | @here v opcode height =>
    intro d fuel acc hd _ hfuel _
    have hscan := scan_end (fuel - 1) d acc opcode
    rw [Nat.sub_add_cancel (by omega), if_pos (by omega)] at hscan
    rw [hscan, or_none, forall_mem_singleton]
    exact iff_of_true rfl fun hmisread => absurd (hmisread.opcode.symm.trans opcode) nofun
  | @elseArm v v' e extent opcode height step rest ih =>
    intro d fuel acc hd hacc hfuel hclean
    have hle := rest.le.1
    have hzero : d = 0 := by omega
    have hnone : acc = none := hacc.resolve_right nofun
    have hhere : ¬ Misread body depth v :=
      fun hmisread => absurd (hmisread.opcode.symm.trans opcode) nofun
    rcases scan_split opcode step fuel (by omega) with ⟨fuel', hleft, hlength, hscan⟩
    rw [hzero, hnone, hscan, forall_mem_cons, and_iff_right hhere]
    exact ih 0 fuel' (some v.position) (by omega) (.inr rfl) (by omega)
      (forall_mem_cons.mp hclean).2
  | @inside v v' els e extent opcode step rest ih =>
    intro d fuel acc hd hacc hfuel hclean
    have hle := rest.le.1
    rcases forall_mem_cons.mp hclean with ⟨hhere, hrest⟩
    rw [forall_mem_cons]
    by_cases hmisread : Misread body depth v
    · exact iff_of_false (misread_wrong hmisread step rest d fuel acc hd hfuel hrest)
        fun hnone => hnone.1 hmisread
    · have hclear := clear_of_not_misread hd hhere hmisread
      rcases scan_inside opcode step hd hclear fuel (by omega) with
        ⟨fuel', d', hleft, hd', hscan⟩
      rw [hscan, and_iff_right hmisread]
      exact ih d' fuel' acc hd' hacc (by omega) hrest

theorem Closes.lt_length (h : Closes module result body depth v els e extent) :
    e < body.length := by
  rcases h.exists_end with ⟨t, _, rfl, hop, _⟩
  rcases map_eq_some_iff.mp hop with ⟨byte, hbyte, _⟩
  exact (List.getElem?_eq_some_iff.mp hbyte).1

/-- A module that declares one type, `() -> i32`, and nothing else. -/
def bareModule : Module where
  code := []
  types := fun _ => { parameters := (.i32, .i32), parameterCount := 0, result := some .i32 }
  typeCount := 1
  importCount := 0
  imports := fun _ => none
  memory := false
  data := none

/-- The positions the verifier matched with an opening opcode it visits in a
    body it accepts. In a block where the last byte of no `i64.const` operand
    has operands of its own, the scan finds them exactly where no such byte is
    misread. -/
theorem scan_agrees_iff (module : Module) (body : List UInt8) (typeIndex : Nat)
    (hbody : verifyBody module body typeIndex = .ok ()) (v v' : Verifier) (kind : ControlKind)
    (hvisited : Visited module (module.types.get typeIndex).result body v)
    (hopcode : opcodeAt body v.position = some (.control kind))
    (hstep : verifyStep module (module.types.get typeIndex).result body v = .ok v') :
    ∃ els e extent,
      Closes module (module.types.get typeIndex).result body v'.controls.length v' els e extent ∧
      ((∀ w ∈ extent, ¬ Swallows body w) →
        (findControlEnd body v'.position = .ok (els, e) ↔
          ∀ w ∈ extent, ¬ Misread body v'.controls.length w)) := by
  have hvisited' := Visited.step hvisited hstep
  rcases step_opens hstep hopcode with ⟨_, _, _, control, hcontrols, _⟩
  rcases exists_closes (accepts_of_visited hbody hvisited') hvisited' [] v.controls control
    hcontrols with ⟨els, e, extent, hcloses, _⟩
  have hlength : v'.controls.length = v.controls.length + 1 := by
    rw [hcontrols, length_cons]
  rw [← hlength] at hcloses
  refine ⟨els, e, extent, hcloses, fun hswallows => ?_⟩
  have hbound := hcloses.lt_length
  exact scan_closes hcloses 0 _ none rfl (.inl rfl) (by omega) hswallows

/-- `block i64.const 1 drop end i32.const 0 end`. -/
def harmlessBody : List UInt8 := [0x00, 0x02, 0x40, 0x42, 0x01, 0x1a, 0x0b, 0x41, 0x00, 0x0b]

/-- The verifier after the `block` that `harmlessBody` starts with. -/
def blockOpen : Verifier where
  position := 3
  stack := []
  controls := [{ kind := .block, height := 0, hasElse := false },
    { kind := .loop, height := 0, hasElse := false }]
  ended := false

theorem scan_agrees_iff_block :
    verifyBody bareModule harmlessBody 0 = .ok () ∧
      ∃ els e extent, Closes bareModule (some .i32) harmlessBody 2 blockOpen els e extent ∧
        ((∀ w ∈ extent, ¬ Swallows harmlessBody w) →
          (findControlEnd harmlessBody 3 = .ok (els, e) ↔
            ∀ w ∈ extent, ¬ Misread harmlessBody 2 w)) :=
  ⟨rfl, scan_agrees_iff bareModule harmlessBody 0 rfl (Verifier.start 1) blockOpen .block
    (Visited.start rfl) rfl rfl⟩

/-- `block i64.const 11 drop end i32.const 0 end`. The operand of the
    `i64.const` is the byte of an `end`. -/
def misreadBody : List UInt8 := [0x00, 0x02, 0x40, 0x42, 0x0b, 0x1a, 0x0b, 0x41, 0x00, 0x0b]

/-- The block ends at byte 6, and the scan says that it ends at byte 4. -/
theorem misread_block_end :
    verifyBody bareModule misreadBody 0 = .ok () ∧
      Visited bareModule (some .i32) misreadBody (Verifier.start 1) ∧
      opcodeAt misreadBody 1 = some (.control .block) ∧
      verifyStep bareModule (some .i32) misreadBody (Verifier.start 1) = .ok blockOpen ∧
      (∃ extent, Closes bareModule (some .i32) misreadBody 2 blockOpen none 6 extent) ∧
      findControlEnd misreadBody 3 = .ok (none, 4) := by
  -- The verifier at the `drop` and at the `end` it matches.
  let atDrop : Verifier := { blockOpen with position := 5, stack := [.i64] }
  let atEnd : Verifier := { blockOpen with position := 6 }
  have hend : Closes bareModule (some .i32) misreadBody 2 atEnd none 6 [atEnd] :=
    Closes.here rfl rfl
  have hdrop : Closes bareModule (some .i32) misreadBody 2 atDrop none 6 [atDrop, atEnd] :=
    Closes.inside (fun _ => by decide) rfl hend
  exact ⟨rfl, Visited.start rfl, rfl, rfl, ⟨_, Closes.inside (fun _ => by decide) rfl hdrop⟩, rfl⟩

end Wasm

end Norx
