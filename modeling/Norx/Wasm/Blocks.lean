import Norx.Wasm.Verify

/-!
# Accepted Bodies and Their Blocks

The run of the verifier over a body it accepts, and which `else` and `end` it
matches with which opening opcode.

The verifier pushes an entry on its control stack at an opening opcode and
pops it at the matching `end`. So the matching `end` is the first one visited
with the control stack as high as it was right after the push, and the `else`
is the one visited at that height on the way. `Closes depth v els e extent`
says this: from `v` the verifier goes on to an `end` at `e` with `depth`
entries on the control stack, past at most one `else` at that height, and
`extent` lists the states it visits.

## Theorems

* `accepts_of_visited`: Every state visited on an accepted body goes on to accept.
* `exists_closes`: Every block opened on an accepted body is closed.
* `Closes.exists_end`, `Closes.exists_else`: The stretch up to the `end` or `else`.
* `Inside.keeps`: Blocks still open keep their ends along a stretch.
* `Closes.after_end`, `Closes.after_else`: Where a jump to the `end` or `else` of a
  block lands.
-/

namespace Norx

namespace Wasm

section Run

variable (module : Module) (result : Option ValType) (body : List UInt8)

/-- The verifier, started on the body, passes through the state. -/
inductive Visited : Verifier → Prop where
  | start {p : Nat} (locals : Cursor.count body 0 0 = .ok (0, p)) : Visited (Verifier.start p)
  | step {v v' : Verifier} (visited : Visited v)
      (step : verifyStep module result body v = .ok v') : Visited v'

/-- From the state the verifier goes on to accept the body. -/
inductive Accepts : Verifier → Prop where
  | done {v : Verifier} (position : v.position = body.length) (ended : v.ended = true) : Accepts v
  | step {v v' : Verifier} (step : verifyStep module result body v = .ok v')
      (rest : Accepts v') : Accepts v

/-- From `v` the verifier goes on to the `end` at `e` that closes the block
    `depth` entries high, past the `else` at `els` if it has one. -/
inductive Closes (depth : Nat) : Verifier → Option Nat → Nat → List Verifier → Prop where
  | here {v : Verifier} (opcode : opcodeAt body v.position = some .endBlock)
      (height : v.controls.length = depth) : Closes depth v none v.position [v]
  | elseArm {v v' : Verifier} {e : Nat} {extent : List Verifier}
      (opcode : opcodeAt body v.position = some .elseArm) (height : v.controls.length = depth)
      (step : verifyStep module result body v = .ok v') (rest : Closes depth v' none e extent) :
      Closes depth v (some v.position) e (v :: extent)
  | inside {v v' : Verifier} {els : Option Nat} {e : Nat} {extent : List Verifier}
      (opcode : v.controls.length = depth → opcodeAt body v.position ≠ some .elseArm ∧
        opcodeAt body v.position ≠ some .endBlock)
      (step : verifyStep module result body v = .ok v') (rest : Closes depth v' els e extent) :
      Closes depth v els e (v :: extent)

/-- A stretch of the verifier's run that does not pass the `end` of the block
    `depth` entries high. -/
inductive Inside (depth : Nat) : Verifier → Verifier → Prop where
  | refl (v : Verifier) : Inside depth v v
  | head {v v' t : Verifier}
      (opcode : v.controls.length = depth → opcodeAt body v.position ≠ some .endBlock)
      (step : verifyStep module result body v = .ok v') (rest : Inside depth v' t) :
      Inside depth v t

/-- Of the blocks up to `depth` entries high, those closed from `v` are closed
    from `t` too, at the same `end`. -/
def KeepsEnds (depth : Nat) (v t : Verifier) : Prop :=
  ∀ d els e extent, d ≤ depth → Closes module result body d v els e extent →
    ∃ els' extent', Closes module result body d t els' e extent'

end Run

variable {module : Module} {result : Option ValType} {body : List UInt8}

variable {v : Verifier}

/-- The verifier's step is a function. -/
theorem step_unique {v₁ v₂ : Verifier} (h₁ : verifyStep module result body v = .ok v₁)
    (h₂ : verifyStep module result body v = .ok v₂) : v₁ = v₂ :=
  Except.ok.inj (h₁.symm.trans h₂)

variable {v' : Verifier}

/-- A step moves the position on, within the body. -/
theorem step_position (h : verifyStep module result body v = .ok v') :
    v.position < v'.position ∧ v'.position ≤ body.length := by
  rcases (verifyStep_checks h).fetched with ⟨i, hfetch⟩
  exact hfetch.bounds

/-- The loop stops only at the end of the body, so what it accepts is
    accepted step by step. The turns left cover the bytes left. -/
theorem accepts_of_verifyLoop : ∀ (fuel : Nat) (v w : Verifier), v.position ≤ body.length →
    body.length ≤ v.position + fuel → verifyLoop module result body fuel v = .ok w →
    w.ended = true → Accepts module result body v := by
  intro fuel
  induction fuel with
  | zero =>
    -- Out of turns, and so out of bytes.
    intro v w hle hfuel hloop hended
    exact Accepts.done (by omega) (by grind [verifyLoop])
  | succ fuel ih =>
    intro v w hle hfuel hloop hended
    rw [verifyLoop] at hloop
    by_cases hpos : v.position = body.length
    · exact Accepts.done hpos (by grind)
    · rw [if_neg hpos, except_bind_eq_ok] at hloop
      rcases hloop with ⟨v', hstep, hloop⟩
      have hmoves := step_position hstep
      exact Accepts.step hstep (ih v' w hmoves.2 (by omega) hloop hended)

/-- What an accepted body starts with, and that its run accepts. -/
theorem verifyBody_accepts {typeIndex : Nat} (h : verifyBody module body typeIndex = .ok ()) :
    ∃ p, Cursor.count body 0 0 = .ok (0, p) ∧
      Accepts module (module.types.get typeIndex).result body (Verifier.start p) := by
  simp only [verifyBody, except_bind_eq_ok, ite_throw_eq_ok, Prod.exists, not_not] at h
  rcases h with ⟨locals, p, hcount, rfl, w, hloop, hended⟩
  -- The count of locals is a number, so it ends within the body, as the loop needs.
  rcases except_bind_ok hcount with ⟨⟨value, q⟩, hleb, hguard⟩
  have hle := (Cursor.lebU32_leb hleb).le_length
  have hqp : q = p := by grind
  exact ⟨p, hcount, accepts_of_verifyLoop body.length (Verifier.start p) w (hqp ▸ hle)
    (Nat.le_add_left _ _) hloop (by grind)⟩

/-- Every state visited on an accepted body goes on to accept. -/
theorem accepts_of_visited {typeIndex : Nat} (h : verifyBody module body typeIndex = .ok ())
    (hv : Visited module (module.types.get typeIndex).result body v) :
    Accepts module (module.types.get typeIndex).result body v := by
  -- Forwards along the run: a state that accepts has the one step there is, or is done.
  induction hv with
  | start locals =>
    rcases verifyBody_accepts h with ⟨p, hcount, haccepts⟩
    have hp := Except.ok.inj (locals.symm.trans hcount)
    rw [(Prod.mk.inj hp).2]
    exact haccepts
  | step _ hstep ih =>
    cases ih with
    | done position _ =>
      -- At the end of the body there is no byte left to step over.
      have hmoves := step_position hstep
      omega
    | step hstep' rest => rwa [step_unique hstep hstep']

/-- Once the body has ended every block is closed, and nothing is left to
    read. -/
theorem ended_closed (hv : Visited module result body v) (h : v.ended = true) :
    v.controls = [] ∧ v.position = body.length := by
  induction hv with
  | start locals => exact absurd h (by simp [Verifier.start])
  | step _ hstep ih =>
    have hmoves := step_position hstep
    cases verifyStep_checks hstep with
    | finish _ _ _ _ last => exact ⟨rfl, last⟩
    | _ =>
      -- No other step sets the flag, and no step is left once it is set.
      have hpos := (ih h).2
      omega

/-- An instruction with plain operands neither opens, splits nor closes a
    block. -/
theorem plain_opcode {i : Instr} {takes leaves : List ValType}
    (h : i.operands = some (takes, leaves)) :
    i.opcode ≠ .elseArm ∧ i.opcode ≠ .endBlock ∧ ∀ kind, i.opcode ≠ .control kind := by
  cases i with
  | control | elseArm | endBlock | drop => exact absurd h (by simp [Instr.operands])
  | _ => exact ⟨nofun, nofun, nofun⟩

theorem Fetch.opcode_ne {p p' : Nat} {i : Instr} {op : Opcode} (h : Fetch body p i p')
    (hne : i.opcode ≠ op) : opcodeAt body p ≠ some op := by
  rw [h.opcode]
  exact fun hop => hne (Option.some.inj hop)

/-- How one step moves the control stack, by the opcode it reads. -/
theorem step_controls (h : verifyStep module result body v = .ok v') :
    (opcodeAt body v.position ≠ some .elseArm ∧ opcodeAt body v.position ≠ some .endBlock ∧
      (v'.controls = v.controls ∨ ∃ control, v'.controls = control :: v.controls)) ∨
    (opcodeAt body v.position = some .elseArm ∧ ∃ control outer, v.controls = control :: outer ∧
      control.hasElse = false ∧ v'.controls = { control with hasElse := true } :: outer) ∨
    (opcodeAt body v.position = some .endBlock ∧
      ∃ control, v.controls = control :: v'.controls) := by
  cases verifyStep_checks h with
  | plain fetch operands _ _ =>
    have hop := plain_opcode operands
    exact .inl ⟨fetch.opcode_ne hop.1, fetch.opcode_ne hop.2.1, .inl rfl⟩
  | drop fetch _ =>
    exact .inl ⟨fetch.opcode_ne nofun, fetch.opcode_ne nofun, .inl rfl⟩
  | control fetch _ _ =>
    exact .inl ⟨fetch.opcode_ne nofun, fetch.opcode_ne nofun, .inr ⟨_, rfl⟩⟩
  | elseArm fetch controls _ first _ =>
    exact .inr (.inl ⟨fetch.opcode, _, _, controls, first, rfl⟩)
  | endBlock fetch controls | finish fetch controls => exact .inr (.inr ⟨fetch.opcode, _, controls⟩)

/-- What the verifier does at an opening opcode. -/
theorem step_opens {kind : ControlKind} (h : verifyStep module result body v = .ok v')
    (hop : opcodeAt body v.position = some (.control kind)) :
    Fetch body v.position (.control kind) v'.position ∧ v.stack = kind.takes ++ v'.stack ∧
      v.controls.length ≠ maxControl ∧
      ∃ control, v'.controls = control :: v.controls ∧ control.kind = kind := by
  cases verifyStep_checks h with
  | control fetch stack room =>
    cases fetch.opcode.symm.trans hop
    exact ⟨fetch, stack, room, _, rfl, rfl⟩
  -- Every other step reads another opcode.
  | plain fetch operands _ _ =>
    exact absurd hop (fetch.opcode_ne ((plain_opcode operands).2.2 kind))
  | drop fetch | elseArm fetch | endBlock fetch | finish fetch =>
    exact absurd hop (fetch.opcode_ne nofun)

variable {outer : List Control} {control : Control} {inner : List Control}

/-- A block at the top of the control stack has nothing inside it. -/
theorem inner_eq_nil (h : (inner ++ control :: outer).length = outer.length + 1) : inner = [] := by
  rw [List.length_append, List.length_cons] at h
  exact List.length_eq_zero_iff.mp (by omega)

/-- A step that does not close a block leaves its entry in place, above the
    same outer entries. The entry can only be marked as past its `else`. -/
theorem step_inside (h : verifyStep module result body v = .ok v')
    (hv : v.controls = inner ++ control :: outer)
    (hopen : inner = [] → opcodeAt body v.position ≠ some .endBlock) :
    ∃ inner' control', v'.controls = inner' ++ control' :: outer ∧ control'.kind = control.kind ∧
      (control.hasElse = true → control'.hasElse = true) := by
  rcases step_controls h with ⟨_, _, hsame | ⟨pushed, hpush⟩⟩ |
    ⟨_, top, rest, htop, hfirst, hmark⟩ | ⟨hend, top, htop⟩
  · exact ⟨inner, control, hsame.trans hv, rfl, id⟩
  · exact ⟨pushed :: inner, control, by rw [hpush, hv, List.cons_append], rfl, id⟩
  · -- An `else` marks the top entry, which is the block's own or one inside it.
    cases inner with
    | nil => exact ⟨[], { top with hasElse := true }, by grind⟩
    | cons first inner => exact ⟨{ top with hasElse := true } :: inner, control, by grind⟩
  · -- An `end` pops the top entry, which is not the block's own.
    cases inner with
    | nil => exact absurd hend (hopen rfl)
    | cons first inner => exact ⟨inner, control, by grind⟩

/-- A state that is not at the end of the body has a step. -/
theorem accepts_step (h : Accepts module result body v) {op : Opcode}
    (hop : opcodeAt body v.position = some op) :
    ∃ v', verifyStep module result body v = .ok v' ∧ Accepts module result body v' := by
  cases h with
  | done position _ =>
    rw [opcodeAt, List.getElem?_eq_none (Nat.le_of_eq position.symm)] at hop
    exact absurd hop (by simp)
  | step hstep rest => exact ⟨_, hstep, rest⟩

/-- Every block opened on an accepted body is closed, and past its `else` it
    has no other. -/
theorem exists_closes (haccepts : Accepts module result body v) :
    Visited module result body v → ∀ (inner outer : List Control) (control : Control),
    v.controls = inner ++ control :: outer →
    ∃ els e extent, Closes module result body (outer.length + 1) v els e extent ∧
      (control.hasElse = true → els = none) := by
  -- Backwards from the end of the body, where no block is open.
  induction haccepts with
  | done position ended =>
    intro hvisited inner outer control hcontrols
    rw [(ended_closed hvisited ended).1] at hcontrols
    exact absurd hcontrols (by simp)
  | @step v v' hstep _ ih =>
    intro hvisited inner outer control hcontrols
    by_cases hend : inner = [] ∧ opcodeAt body v.position = some .endBlock
    · exact ⟨none, v.position, [v], Closes.here hend.2 (by grind), fun _ => rfl⟩
    · rcases step_inside hstep hcontrols (fun hinner hop => hend ⟨hinner, hop⟩) with
        ⟨inner', control', hcontrols', _, hmark⟩
      rcases ih (Visited.step hvisited hstep) inner' outer control' hcontrols' with
        ⟨els, e, extent, hcloses, hels⟩
      by_cases helse : inner = [] ∧ opcodeAt body v.position = some .elseArm
      · -- The verifier marks the entry, so there is no `else` after this one.
        rcases step_controls hstep with ⟨hnot, _, _⟩ | ⟨_, top, rest, htop, hfirst, hset⟩ |
          ⟨hnot, _, _⟩
        · exact absurd helse.2 hnot
        · have hlength : (inner' ++ control' :: outer).length = outer.length + 1 := by grind
          have hinner' := inner_eq_nil hlength
          have hnone : els = none := hels (by grind)
          rw [hnone] at hcloses
          exact ⟨some v.position, e, v :: extent, Closes.elseArm helse.2 (by grind) hstep hcloses,
            by grind⟩
        · exact absurd (helse.2.symm.trans hnot) nofun
      · -- Anything else is inside: at the block's own height it is no `else` and no `end`.
        refine ⟨els, e, v :: extent, Closes.inside ?_ hstep hcloses, fun h => hels (hmark h)⟩
        intro hheight
        have hinner : inner = [] := inner_eq_nil (hcontrols ▸ hheight)
        exact ⟨fun hop => helse ⟨hinner, hop⟩, fun hop => hend ⟨hinner, hop⟩⟩

variable {depth e : Nat} {els : Option Nat} {extent : List Verifier}

/-- A block the step does not close keeps its end. -/
theorem Closes.next (h : Closes module result body depth v els e extent)
    (hstep : verifyStep module result body v = .ok v')
    (hopen : v.controls.length = depth → opcodeAt body v.position ≠ some .endBlock) :
    ∃ els' extent', Closes module result body depth v' els' e extent' := by
  cases h with
  | here opcode height => exact absurd opcode (hopen height)
  | elseArm _ _ step rest | inside _ step rest =>
    rw [step_unique hstep step]
    exact ⟨_, _, rest⟩

theorem Inside.visited {t : Verifier} (h : Inside module result body depth v t)
    (hv : Visited module result body v) : Visited module result body t := by
  induction h with
  | refl v => exact hv
  | head _ step _ ih => exact ih (Visited.step hv step)

/-- Along a stretch inside a block its entry stays in place, above the same
    outer entries, and it and the blocks around it keep their ends. -/
theorem Inside.keeps {t : Verifier} (h : Inside module result body (outer.length + 1) v t) :
    ∀ (inner : List Control) (control : Control), v.controls = inner ++ control :: outer →
    (∃ inner' control', t.controls = inner' ++ control' :: outer ∧
      control'.kind = control.kind) ∧
    KeepsEnds module result body (outer.length + 1) v t := by
  induction h with
  | refl v =>
    exact fun inner control hv => ⟨⟨inner, control, hv, rfl⟩,
      fun _ els _ extent _ hcloses => ⟨els, extent, hcloses⟩⟩
  | @head v v' t opcode step _ ih =>
    intro inner control hv
    rcases step_inside step hv (fun hinner => opcode (by grind)) with ⟨inner', control', hv', hkind, _⟩
    rcases ih inner' control' hv' with ⟨⟨inner'', control'', ht, hkind'⟩, hends⟩
    refine ⟨⟨inner'', control'', ht, hkind'.trans hkind⟩, ?_⟩
    intro depth els e extent hdepth hcloses
    -- A lower block cannot be closed here either: its entry is not the top one.
    rcases hcloses.next step (fun hheight => opcode (by grind)) with ⟨els', extent', hcloses'⟩
    exact hends depth els' e extent' hdepth hcloses'

/-- The stretch up to the `end` of a block. -/
theorem Closes.exists_end (h : Closes module result body depth v els e extent) :
    ∃ t, Inside module result body depth v t ∧ t.position = e ∧
      opcodeAt body t.position = some .endBlock ∧ t.controls.length = depth := by
  induction h with
  | here opcode height => exact ⟨_, Inside.refl _, rfl, opcode, height⟩
  | elseArm opcode _ step _ ih =>
    rcases ih with ⟨t, hinside, ht⟩
    refine ⟨t, Inside.head (fun _ => ?_) step hinside, ht⟩
    rw [opcode]
    simp
  | inside opcode step _ ih =>
    rcases ih with ⟨t, hinside, ht⟩
    exact ⟨t, Inside.head (fun hheight => (opcode hheight).2) step hinside, ht⟩

/-- The stretch up to the `else` of a block. -/
theorem Closes.exists_else {q : Nat} (h : Closes module result body depth v els e extent)
    (hels : els = some q) :
    ∃ t, Inside module result body depth v t ∧ t.position = q ∧
      opcodeAt body t.position = some .elseArm ∧ t.controls.length = depth := by
  induction h with
  | here opcode height => exact nomatch hels
  | elseArm opcode height step _ _ =>
    injection hels with hels
    exact ⟨_, Inside.refl _, hels, opcode, height⟩
  | inside opcode step _ ih =>
    rcases ih hels with ⟨t, hinside, ht⟩
    exact ⟨t, Inside.head (fun hheight => (opcode hheight).2) step hinside, ht⟩

/-- The step over an `else` or an `end` takes one byte. -/
theorem step_one_byte (h : verifyStep module result body v = .ok v')
    (hop : opcodeAt body v.position = some .elseArm ∨ opcodeAt body v.position = some .endBlock) :
    v'.position = v.position + 1 := by
  rcases (verifyStep_checks h).fetched with ⟨i, fetch⟩
  rw [fetch.opcode] at hop
  cases i with
  | elseArm => exact fetch.reads
  | endBlock => exact fetch.reads
  | _ =>
    rcases hop with hop | hop
    · exact absurd hop nofun
    · exact absurd hop nofun

section Accepted

variable (haccepts : ∀ w, Visited module result body w → Accepts module result body w)

include haccepts

/-- The step over the `else` or the `end` of a block, and the state it comes from. -/
theorem Inside.splits {w : Verifier} (h : Inside module result body (outer.length + 1) v w)
    (hvisited : Visited module result body v) (hcontrols : v.controls = control :: outer)
    (hlength : w.controls.length = outer.length + 1)
    (hop : opcodeAt body w.position = some .elseArm ∨ opcodeAt body w.position = some .endBlock) :
    ∃ t top, verifyStep module result body w = .ok t ∧ Visited module result body t ∧
      t.position = w.position + 1 ∧ w.controls = top :: outer ∧ top.kind = control.kind ∧
      KeepsEnds module result body (outer.length + 1) v w := by
  have hvisited' := h.visited hvisited
  rcases h.keeps [] control hcontrols with ⟨⟨inner, top, hcontrols', hkind⟩, hends⟩
  have hinner : inner = [] := inner_eq_nil (hcontrols' ▸ hlength)
  rw [hinner] at hcontrols'
  rcases hop.elim (accepts_step (haccepts w hvisited')) (accepts_step (haccepts w hvisited')) with
    ⟨t, hstep, _⟩
  exact ⟨t, top, hstep, .step hvisited' hstep, step_one_byte hstep hop, hcontrols', hkind, hends⟩

/-- The state after the `end` of a block: back outside, with the blocks around
    it still to be closed where they were. -/
theorem Closes.after_end (h : Closes module result body (outer.length + 1) v els e extent)
    (hvisited : Visited module result body v) (hcontrols : v.controls = control :: outer) :
    ∃ t, Visited module result body t ∧ t.position = e + 1 ∧ t.controls = outer ∧
      KeepsEnds module result body outer.length v t := by
  rcases h.exists_end with ⟨w, hinside, rfl, hop, hlength⟩
  rcases hinside.splits haccepts hvisited hcontrols hlength (.inr hop) with
    ⟨t, top, hstep, hvisited', hposition, hcontrols', -, hends⟩
  refine ⟨t, hvisited', hposition, by grind [step_controls hstep], ?_⟩
  -- The `end` closes this block only, and the others are lower.
  intro depth els' e' extent' hdepth hcloses
  rcases hends depth els' e' extent' (by omega) hcloses with ⟨els'', extent'', hcloses'⟩
  exact hcloses'.next hstep (fun hheight => by omega)

/-- The state after the `else` of a block: in its second arm, with the block
    and those around it still to be closed where they were. -/
theorem Closes.after_else {q : Nat}
    (h : Closes module result body (outer.length + 1) v (some q) e extent)
    (hvisited : Visited module result body v) (hcontrols : v.controls = control :: outer) :
    ∃ t, Visited module result body t ∧ t.position = q + 1 ∧
      (∃ top, t.controls = top :: outer ∧ top.kind = control.kind) ∧
      KeepsEnds module result body (outer.length + 1) v t := by
  rcases h.exists_else rfl with ⟨w, hinside, rfl, hop, hlength⟩
  rcases hinside.splits haccepts hvisited hcontrols hlength (.inl hop) with
    ⟨t, top, hstep, hvisited', hposition, hcontrols', hkind, hends⟩
  refine ⟨t, hvisited', hposition, by grind [step_controls hstep], ?_⟩
  intro depth els' e' extent' hdepth hcloses
  rcases hends depth els' e' extent' hdepth hcloses with ⟨els'', extent'', hcloses'⟩
  exact hcloses'.next hstep (fun _ => by simp [hop])

end Accepted

end Wasm

end Norx
