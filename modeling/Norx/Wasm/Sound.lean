import Norx.Wasm.Conform
import Norx.Wasm.Interp

/-!
# What the Verifier Guarantees a Run

A simulation between the interpreter and the verifier. At every instruction
the interpreter comes to, the verifier has been in a state with the same
position, whose type stack is the types of the operands, and whose control
stack has the blocks the interpreter is in, each with the `end` the scan
found.

It holds from one instruction to the next as long as the interpreter goes on
where the verifier did. It jumps in three places: over the first arm of an
`if`, over an `if` without `else`, and from the end of the first arm to the
end of the second. The verifier does not compare the types it has at the two
sides of such a jump. It compares the heights of the stack, but an arm may pop
what was there before the block and push something of another type. `Regular`
says that it did not, for the jump the interpreter is about to take, and that
the scan is not misled in the block it is about to enter. It also asks that a
call is one of import zero, because the interpreter makes no other, though the
verifier accepts the index of every import of `log`.

## Theorems

* `sim_turn`: A regular turn keeps the simulation, or ends as it may.
* `run_expected`: A run of regular turns ends as it may.
-/

namespace Norx

namespace Wasm

open Fallible List

variable {σ : Type}

/-- The ways a run may end: with a value, out of fuel, with a memory fault or
    with a trap of the host. -/
def Stop.Expected : Stop → Prop
  | .returned _ => True
  | .trapped .fuelExhausted => True
  | .trapped .memoryFault => True
  | .trapped _ => False
  | .refused _ => True

/-- The host answers every call with an `i32` or with a trap. -/
def Host.Answers (host : Host σ) : Prop :=
  ∀ target arguments state memory handles,
    (∃ value, (host.call target arguments state memory handles).1 = .ok (some (.i32 value))) ∨
      ∃ trap, (host.call target arguments state memory handles).1 = .error trap

section Simulation

variable (module : Module) (result : Option ValType)

/-- The next turn is one the verifier's checks cover. -/
structure Regular (m : Machine σ) : Prop where
  /-- A call is one of import zero. -/
  call : ∀ index p, Fetch module.code m.position (.call index) p → index = 0
  /-- Nothing in a block that is entered misleads the scan for its end. -/
  scan : ∀ v v' kind els e extent, Visited module result module.code v →
    v.position = m.position → opcodeAt module.code m.position = some (.control kind) →
    verifyStep module result module.code v = .ok v' →
    Closes module result module.code v'.controls.length v' els e extent →
    ∀ w ∈ extent, ¬ Swallows module.code w ∧ ¬ Misread module.code v'.controls.length w
  /-- Where an `if` with a false condition jumps to, the verifier has the types
      it has after the condition. -/
  skip : ∀ v v' els e extent rest t, Visited module result module.code v →
    v.position = m.position → opcodeAt module.code m.position = some (.control .conditional) →
    verifyStep module result module.code v = .ok v' →
    Closes module result module.code v'.controls.length v' els e extent →
    m.stack = .i32 0 :: rest → Visited module result module.code t →
    t.position = els.getD e + 1 → t.stack = v'.stack
  /-- Where the end of a first arm jumps to, the verifier has the types it has
      there. -/
  leave : ∀ v els e extent t, Visited module result module.code v → v.position = m.position →
    opcodeAt module.code m.position = some .elseArm →
    Closes module result module.code v.controls.length v els e extent →
    Visited module result module.code t → t.position = e + 1 → t.stack = v.stack

/-- The blocks the interpreter is in are those the verifier is in, each to be
    closed at the position the interpreter has for it. Below them the verifier
    has the entry of the body. -/
def Frames (v : Verifier) : List (Nat × ControlKind) → List Control → Prop
  | [], [control] => control.kind = .loop
  | (e, kind) :: frames, control :: outer => control.kind = kind ∧
      (∃ els extent, Closes module result module.code (outer.length + 1) v els e extent) ∧
      Frames v frames outer
  | _, _ => False

/-- The verifier was in the state `v` where the interpreter is now. -/
structure Sim (v : Verifier) (m : Machine σ) : Prop where
  visited : Visited module result module.code v
  position : v.position = m.position
  stack : m.stack.map Value.type = v.stack
  controls : Frames module result v m.controls v.controls
  room : v.controls.length ≤ maxControl
  live : m.memory.live = true

/-- The next turn leads to where the verifier was in some state, or ends as a
    run may. -/
def Advances (host : Host σ) (m : Machine σ) : Prop :=
  wp (turn module.code host) (fun _ m' => ∃ v', Sim module result v' m')
    (fun stop _ => stop.Expected) m

/-- The verifier goes on to accept from wherever it comes. -/
def Accepted : Prop :=
  ∀ w, Visited module result module.code w → Accepts module result module.code w

end Simulation

variable {module : Module} {result : Option ValType}

variable {v : Verifier} {frames : List (Nat × ControlKind)} {controls : List Control}

theorem frames_length (h : Frames module result v frames controls) :
    controls.length = frames.length + 1 := by
  fun_induction Frames module result v frames controls with
  | case1 control => rfl
  | case2 e kind frames control outer ih => rw [length_cons, ih h.2.2, length_cons]
  | case3 => exact h.elim

/-- Frames are kept by a move that keeps the ends of the blocks they are for. -/
theorem frames_move {t : Verifier} (h : Frames module result v frames controls)
    (hmove : KeepsEnds module result module.code controls.length v t) :
    Frames module result t frames controls := by
  -- Induction on the open blocks, outwards: an outer block is lower on the control stack.
  fun_induction Frames module result v frames controls with
  | case1 control => exact h
  | case2 e kind frames control outer ih =>
    rcases h with ⟨hkind, ⟨els, extent, hcloses⟩, hrest⟩
    refine ⟨hkind, hmove _ els _ extent (Nat.le_refl _) hcloses, ih hrest ?_⟩
    intro depth els e extent hdepth hcloses
    exact hmove depth els e extent (Nat.le_succ_of_le hdepth) hcloses
  | case3 => exact h.elim

variable {control : Control} {outer : List Control}

/-- A block that is no `loop` is not the body, so the interpreter is in it. -/
theorem frames_top (h : Frames module result v frames (control :: outer))
    (hkind : control.kind ≠ .loop) :
    ∃ e frames', frames = (e, control.kind) :: frames' ∧
      (∃ els extent, Closes module result module.code (outer.length + 1) v els e extent) ∧
      Frames module result v frames' outer := by
  cases frames with
  | nil =>
    cases outer with
    | nil => exact absurd h hkind
    | cons _ _ => exact absurd h (fun h => h)
  | cons frame frames =>
    rcases h with ⟨hsame, hcloses, hrest⟩
    rw [hsame]
    exact ⟨frame.1, frames, rfl, hcloses, hrest⟩

variable {types : List ValType} {stack : List Value}

theorem types_cons_i32 (h : stack.map Value.type = .i32 :: types) :
    ∃ value rest, stack = .i32 value :: rest ∧ rest.map Value.type = types := by
  rcases map_eq_cons_iff.mp h with ⟨value, rest, rfl, htype, hrest⟩
  cases value with
  | i32 value => exact ⟨value, rest, rfl, hrest⟩
  | i64 value => exact absurd htype nofun

theorem types_cons_i64 (h : stack.map Value.type = .i64 :: types) :
    ∃ value rest, stack = .i64 value :: rest ∧ rest.map Value.type = types := by
  rcases map_eq_cons_iff.mp h with ⟨value, rest, rfl, htype, hrest⟩
  cases value with
  | i64 value => exact ⟨value, rest, rfl, hrest⟩
  | i32 value => exact absurd htype nofun

variable {v' : Verifier} {m : Machine σ} {host : Host σ}

/-- A step that leaves the control stack alone keeps the simulation, whatever
    else changes along with the operands. -/
theorem sim_plain (hsim : Sim module result v m)
    (hstep : verifyStep module result module.code v = .ok v') (hcontrols : v'.controls = v.controls)
    (hop : opcodeAt module.code v.position ≠ some .endBlock) (stack : List Value)
    (memory : LinearMemory) (handles : HandleTable) (host : σ)
    (hstack : stack.map Value.type = v'.stack) (hlive : memory.live = true) :
    Sim module result v' ⟨v'.position, stack, m.controls, memory, handles, host⟩ where
  visited := Visited.step hsim.visited hstep
  position := rfl
  stack := hstack
  controls := by
    rw [hcontrols]
    exact frames_move hsim.controls (fun _ _ _ _ _ hcloses => hcloses.next hstep (fun _ => hop))
  room := by
    rw [hcontrols]
    exact hsim.room
  live := hlive

theorem wp_callHost (hhost : host.Answers)
    {Q : PUnit → Machine σ → Prop} {E : Stop → Machine σ → Prop} {arguments : List Value}
    (hlength : m.stack.length ≠ maxStack)
    (hQ : ∀ value bytes handles state, Q ⟨⟩ { m with
      stack := .i32 value :: m.stack
      memory := { m.memory with bytes }
      handles
      host := state })
    (hE : ∀ trap m', E (.refused trap) m') : wp (callHost host arguments) Q E m := by
  unfold wp callHost
  rcases hcall : host.call .log arguments m.host m.memory m.handles with
    ⟨outcome, state, bytes, handles⟩
  have hanswer := hhost .log arguments m.host m.memory m.handles
  rw [hcall] at hanswer
  -- The host answers with a number, or it refuses and the run is over.
  rcases hanswer with ⟨value, hvalue⟩ | ⟨trap, htrap⟩
  · have houtcome : outcome = .ok (some (.i32 value)) := hvalue
    subst houtcome
    dsimp only [pushValue]
    rw [if_neg hlength]
    exact hQ value bytes handles state
  · have houtcome : outcome = .error trap := htrap
    subst houtcome
    exact hE trap _

variable {p : Nat}

/-- A turn over an instruction with plain operands. -/
theorem turn_plain (hhost : host.Answers) (hsim : Sim module result v m)
    (hregular : Regular module result m) (hstep : verifyStep module result module.code v = .ok v')
    {i : Instr} {takes leaves rest : List ValType} (fetch : Fetch module.code v.position i p)
    (operands : i.operands = some (takes, leaves)) (stack : v.stack = takes ++ rest)
    (room : leaves ≠ [] → rest.length ≠ maxStack)
    (hv' : v' = { v with position := p, stack := leaves ++ rest }) :
    Advances module result host m := by
  have hop : opcodeAt module.code m.position = some i.opcode := by
    rw [← hsim.position]
    exact fetch.opcode
  have hplain := fetch.opcode_ne (plain_opcode operands).2.1
  have hreads : i.Reads module.code (m.position + 1) p := by
    rw [← hsim.position]
    exact fetch.reads
  have htypes := hsim.stack
  rw [stack] at htypes
  -- Whatever else the turn changes, the operands it leaves have to have the types.
  have hkeep : ∀ (values : List Value) (memory : LinearMemory) (handles : HandleTable) (state : σ),
      values.map Value.type = leaves ++ rest → memory.live = true →
      ∃ v', Sim module result v' ⟨p, values, m.controls, memory, handles, state⟩ := by
    intro values memory handles state hvalues hlive
    have hsim' := sim_plain hsim hstep (by rw [hv']) hplain values memory handles state
      (hvalues.trans (by rw [hv'])) hlive
    have hposition : v'.position = p := by rw [hv']
    rw [hposition] at hsim'
    exact ⟨v', hsim'⟩
  have hlength : ∀ {values : List Value}, values.map Value.type = rest → leaves ≠ [] →
      values.length ≠ maxStack := by
    intro values hvalues hleaves
    rw [← length_map Value.type, hvalues]
    exact room hleaves
  refine wp_turn hop ?_
  -- The operands popped have the types the verifier popped, and what is pushed has room.
  cases i with
  | nop =>
    cases operands
    have hp : p = m.position + 1 := hreads
    subst hp
    exact hkeep _ _ _ _ htypes hsim.live
  | i32Const value =>
    cases operands
    rw [Instr.opcode, perform, wp_bind]
    refine wp_fetch hreads (wp_pushValue (hlength htypes (cons_ne_nil _ _)) ?_)
    exact hkeep _ _ _ _ (congrArg (ValType.i32 :: ·) htypes) hsim.live
  | i64Const value =>
    cases operands
    rw [Instr.opcode, perform, wp_bind]
    refine wp_fetch hreads (wp_pushValue (hlength htypes (cons_ne_nil _ _)) ?_)
    exact hkeep _ _ _ _ (congrArg (ValType.i64 :: ·) htypes) hsim.live
  | eqz =>
    cases operands
    have hp : p = m.position + 1 := hreads
    subst hp
    rcases types_cons_i32 htypes with ⟨value, values, hvalue, hvalues⟩
    rw [Instr.opcode, perform, wp_bind]
    refine wp_popI32 hvalue (wp_pushValue (hlength hvalues (cons_ne_nil _ _)) ?_)
    exact hkeep _ _ _ _ (congrArg (ValType.i32 :: ·) hvalues) hsim.live
  | arith operation =>
    cases operands
    have hp : p = m.position + 1 := hreads
    subst hp
    rcases types_cons_i32 htypes with ⟨right, values, hright, hvalues⟩
    rcases types_cons_i32 hvalues with ⟨left, values', hleft, hvalues'⟩
    simp [Instr.opcode, perform]
    refine wp_popI32 hright (wp_popI32 hleft (wp_pushValue (hlength hvalues' (cons_ne_nil _ _)) ?_))
    exact hkeep _ _ _ _ (congrArg (ValType.i32 :: ·) hvalues') hsim.live
  | i64Add =>
    cases operands
    have hp : p = m.position + 1 := hreads
    subst hp
    rcases types_cons_i64 htypes with ⟨right, values, hright, hvalues⟩
    rcases types_cons_i64 hvalues with ⟨left, values', hleft, hvalues'⟩
    simp [Instr.opcode, perform]
    refine wp_popI64 hright (wp_popI64 hleft (wp_pushValue (hlength hvalues' (cons_ne_nil _ _)) ?_))
    exact hkeep _ _ _ _ (congrArg (ValType.i64 :: ·) hvalues') hsim.live
  | load align offset =>
    cases operands
    rcases hreads with ⟨q, halign, hoffset⟩
    rcases types_cons_i32 htypes with ⟨address, values, haddress, hvalues⟩
    simp [Instr.opcode, perform]
    refine wp_fetch halign (wp_fetch hoffset (wp_popI32 haddress ?_))
    refine wp_load hsim.live (hlength hvalues (cons_ne_nil _ _)) (fun value => ?_) trivial
    exact hkeep _ _ _ _ (congrArg (ValType.i32 :: ·) hvalues) hsim.live
  | store align offset =>
    cases operands
    rcases hreads with ⟨q, halign, hoffset⟩
    rcases types_cons_i32 htypes with ⟨value, values, hvalue, hvalues⟩
    rcases types_cons_i32 hvalues with ⟨address, values', haddress, hvalues'⟩
    simp [Instr.opcode, perform]
    refine wp_fetch halign (wp_fetch hoffset (wp_popI32 hvalue (wp_popI32 haddress ?_)))
    refine wp_store hsim.live (fun memory hlive => ?_) trivial
    exact hkeep _ _ _ _ hvalues' hlive
  | call index =>
    cases operands
    -- This is where a call of another import would be refused.
    have hindex : index = 0 := by
      refine hregular.call index p ?_
      rw [← hsim.position]
      exact fetch
    rcases types_cons_i32 htypes with ⟨len, values, hlen, hvalues⟩
    rcases types_cons_i32 hvalues with ⟨ptr, values', hptr, hvalues'⟩
    rw [Instr.opcode, perform, wp_bind]
    refine wp_fetch hreads ?_
    rw [if_neg (not_not.mpr hindex)]
    simp
    refine wp_popI32 hlen (wp_popI32 hptr ?_)
    refine wp_callHost hhost (hlength hvalues' (cons_ne_nil _ _)) (fun value bytes handles state => ?_)
      (fun trap m' => trivial)
    exact hkeep _ _ _ _ (congrArg (ValType.i32 :: ·) hvalues') hsim.live
  | control | elseArm | endBlock | drop => cases operands

/-- A turn that drops an operand, of whichever type. -/
theorem turn_drop (hsim : Sim module result v m)
    (hstep : verifyStep module result module.code v = .ok v') {top : ValType}
    (fetch : Fetch module.code v.position .drop v'.position) (stack : v.stack = top :: v'.stack)
    (hcontrols : v'.controls = v.controls) :
    Advances module result host m := by
  have hop : opcodeAt module.code m.position = some .drop := by
    rw [← hsim.position]
    exact fetch.opcode
  have htypes := hsim.stack
  rw [stack] at htypes
  rcases map_eq_cons_iff.mp htypes with ⟨value, values, hvalue, _, hvalues⟩
  have hsim' := sim_plain hsim hstep hcontrols (fetch.opcode_ne nofun) values m.memory m.handles
    m.host hvalues hsim.live
  have hp : v'.position = v.position + 1 := fetch.reads
  rw [hp, hsim.position] at hsim'
  refine wp_turn hop ?_
  rw [perform, wp_bind]
  exact wp_popValue hvalue ⟨v', hsim'⟩

variable {kind : ControlKind} {rest : List Value} {els : Option Nat}

/-- Opening a block whose positions the scan finds. -/
theorem wp_openBlock {code : List UInt8} {Q : PUnit → Machine σ → Prop}
    {E : Stop → Machine σ → Prop} {e : Nat} {test : Option (BitVec 32)}
    (hcondition : ∀ Q' : Option (BitVec 32) → Machine σ → Prop, Q' test { m with stack := rest } → wp (condition kind) Q' E m)
    (hblock : code[m.position]? = some 0x40 ∧ p = m.position + 1)
    (hscan : findControlEnd code p = .ok (els, e))
    (hQ : wp (enter kind test els e) Q E { m with position := p, stack := rest }) :
    wp (openBlock code kind) Q E m := by
  rw [openBlock, wp_bind]
  refine hcondition _ ?_
  rw [wp_bind]
  refine wp_fetch (Cursor.byte_eq_ok.mpr hblock) ?_
  rw [if_neg (by decide), wp_bind, wp_lift]
  rw [hscan]
  refine ⟨fun found hfound => ?_, fun stop hstop => absurd hstop nofun⟩
  injection hfound with hfound
  rw [← hfound]
  exact hQ

/-- Inside a block that was just opened, at its start or after its `else`. -/
theorem sim_enter (hsim : Sim module result v m)
    (hstep : verifyStep module result module.code v = .ok v')
    (hcontrols : v'.controls = control :: v.controls) (hroom : v'.controls.length ≤ maxControl)
    (hop : opcodeAt module.code v.position ≠ some .endBlock) {e : Nat} {extent : List Verifier}
    (hcloses : Closes module result module.code (v.controls.length + 1) v' els e extent)
    {t : Verifier} (hvisited : Visited module result module.code t) {top : Control}
    (htop : t.controls = top :: v.controls) (hkind : top.kind = control.kind)
    (hmove : KeepsEnds module result module.code (v.controls.length + 1) v' t)
    (hrest : rest.map Value.type = t.stack) :
    Sim module result t ⟨t.position, rest, (e, control.kind) :: m.controls, m.memory, m.handles,
      m.host⟩ where
  visited := hvisited
  position := rfl
  stack := hrest
  controls := by
    rw [htop]
    refine ⟨hkind, hmove _ _ _ _ (Nat.le_refl _) hcloses, ?_⟩
    refine frames_move hsim.controls (fun depth els' e' extent' hdepth hcloses' => ?_)
    rcases hcloses'.next hstep (fun _ => hop) with ⟨els'', extent'', hcloses''⟩
    exact hmove depth els'' e' extent'' (Nat.le_succ_of_le hdepth) hcloses''
  room := by
    rw [htop, length_cons]
    rw [hcontrols, length_cons] at hroom
    exact hroom
  live := hsim.live

/-- Outside a block, after its `end`. -/
theorem sim_outside {w t : Verifier} (hframes : Frames module result w frames outer)
    (hvisited : Visited module result module.code t) (hcontrols : t.controls = outer)
    (hmove : KeepsEnds module result module.code outer.length w t)
    (hroom : outer.length ≤ maxControl) (hstack : m.stack.map Value.type = t.stack)
    (hlive : m.memory.live = true) :
    Sim module result t { m with position := t.position, controls := frames } where
  visited := hvisited
  position := rfl
  stack := hstack
  controls := by
    rw [hcontrols]
    exact frames_move hframes hmove
  room := by
    rw [hcontrols]
    exact hroom
  live := hlive

section Regular

variable (haccepts : Accepted module result) (hsim : Sim module result v m)
  (hregular : Regular module result m)

include haccepts hsim hregular

/-- A turn that opens a block. -/
theorem turn_control (hstep : verifyStep module result module.code v = .ok v')
    (hop : opcodeAt module.code v.position = some (.control kind)) :
    Advances module result host m := by
  rcases step_opens hstep hop with ⟨fetch, hstack, hroom, control, hcontrols, hkind⟩
  have hvisited := Visited.step hsim.visited hstep
  rw [hsim.position] at hop
  rcases exists_closes (haccepts v' hvisited) hvisited [] v.controls control hcontrols with
    ⟨els, e, extent, hcloses, _⟩
  have hdepth : v'.controls.length = v.controls.length + 1 := by
    rw [hcontrols, length_cons]
  have hclear := hregular.scan v v' kind els e extent hsim.visited hsim.position hop hstep
    (hdepth ▸ hcloses)
  have hscan : findControlEnd module.code v'.position = .ok (els, e) := by
    have hbound := hcloses.lt_length
    rw [hdepth] at hclear
    exact (scan_closes hcloses 0 _ none hdepth (.inl rfl) (by omega)
      fun w hw => (hclear w hw).1).mpr fun w hw => (hclear w hw).2
  -- The verifier has an entry for the body besides, so there is room for the block.
  have hlength : m.controls.length ≠ maxControl := by
    have hframes := frames_length hsim.controls
    have hmax := hsim.room
    omega
  have hroom' : v'.controls.length ≤ maxControl := by
    have hmax := hsim.room
    omega
  have hmove : KeepsEnds module result module.code v.controls.length v v' := by
    intro depth els' e' extent' _ hcloses'
    exact hcloses'.next hstep (fun _ => fetch.opcode_ne nofun)
  have hblock : module.code[m.position + 1]? = some 0x40 ∧ v'.position = m.position + 1 + 1 := by
    rw [← hsim.position]
    exact fetch.reads
  -- Whichever way the test goes, the verifier has been where the interpreter goes.
  have henter : ∀ (test : Option (BitVec 32)) (rest : List Value),
      rest.map Value.type = v'.stack →
      (test = some 0 → kind = .conditional ∧ m.stack = .i32 0 :: rest) →
      wp (enter kind test els e) (fun _ m' => ∃ v', Sim module result v' m')
        (fun stop _ => stop.Expected) { m with position := v'.position, stack := rest } := by
    intro test rest hrest hzero
    unfold wp enter
    rw [if_neg hlength]
    by_cases htest : test = some 0
    · rcases hzero htest with ⟨rfl, hm⟩
      have hskip := hregular.skip v v' els e extent rest
      rw [if_pos htest]
      cases els with
      -- The interpreter is in the second arm, where the verifier was after the `else`.
      | some q =>
        rcases hcloses.after_else haccepts hvisited hcontrols with
          ⟨t, hvisited', hposition, ⟨top, htop, hkind'⟩, hmove'⟩
        have htypes := hskip t hsim.visited hsim.position hop hstep (hdepth ▸ hcloses) hm
          hvisited' hposition
        have hsim' := sim_enter hsim hstep hcontrols hroom' (fetch.opcode_ne nofun) hcloses
          hvisited' htop hkind' hmove' (hrest.trans htypes.symm)
        rw [hposition, hkind] at hsim'
        exact ⟨t, hsim'⟩
      -- The interpreter is past the block, where the verifier was after the `end`.
      | none =>
        rcases hcloses.after_end haccepts hvisited hcontrols with
          ⟨t, hvisited', hposition, htop, hmove'⟩
        have htypes := hskip t hsim.visited hsim.position hop hstep (hdepth ▸ hcloses) hm
          hvisited' hposition
        have hsim' := sim_outside (frames_move hsim.controls hmove) hvisited' htop hmove'
          hsim.room (m := { m with stack := rest }) (hrest.trans htypes.symm) hsim.live
        rw [hposition] at hsim'
        exact ⟨t, hsim'⟩
    · rw [if_neg htest]
      have hsim' := sim_enter hsim hstep hcontrols hroom' (fetch.opcode_ne nofun) hcloses hvisited
        hcontrols rfl (fun depth els e extent _ h => ⟨els, extent, h⟩) hrest
      rw [hkind] at hsim'
      exact ⟨v', hsim'⟩
  refine wp_turn hop ?_
  have htypes := hsim.stack
  rw [hstack] at htypes
  cases kind with
  | conditional =>
    rcases types_cons_i32 htypes with ⟨test, rest, htest, hrest⟩
    refine wp_openBlock (fun Q' hQ' => ?_) hblock hscan
      (henter (some test) rest hrest (fun hzero => ⟨rfl, ?_⟩))
    · rw [condition, if_pos rfl, wp_bind]
      exact wp_popI32 htest hQ'
    · injection hzero with hzero
      rw [htest, hzero]
  | block | loop =>
    exact wp_openBlock (fun Q' hQ' => hQ') hblock hscan
      (henter none m.stack htypes (fun hzero => absurd hzero nofun))

/-- A turn at the end of the first arm of an `if`. -/
theorem turn_else (hop : opcodeAt module.code v.position = some .elseArm)
    (hcontrols : v.controls = control :: outer) (hkind : control.kind = .conditional) :
    Advances module result host m := by
  have hframes := hsim.controls
  have hroom := hsim.room
  rw [hcontrols] at hframes hroom
  rw [length_cons] at hroom
  rw [hsim.position] at hop
  rcases frames_top hframes (by rw [hkind]; exact nofun) with
    ⟨e, frames, hm, ⟨els, extent, hcloses⟩, hrest⟩
  -- The interpreter jumps past the `end`, where the verifier comes to after the second arm.
  rcases hcloses.after_end haccepts hsim.visited hcontrols with
    ⟨t, hvisited, hposition, htop, hmove⟩
  have htypes := hregular.leave v els e extent t hsim.visited hsim.position hop
    (by rw [hcontrols]; exact hcloses) hvisited hposition
  have hsim' := sim_outside hrest hvisited htop hmove (by omega) (hsim.stack.trans htypes.symm)
    hsim.live
  rw [hposition] at hsim'
  rw [hkind] at hm
  exact wp_turn hop (wp_leaveArm hm ⟨t, hsim'⟩)

end Regular

/-- A turn at the end of a block. -/
theorem turn_end (hsim : Sim module result v m)
    (hstep : verifyStep module result module.code v = .ok v')
    (hop : opcodeAt module.code v.position = some .endBlock)
    (hcontrols : v.controls = control :: v'.controls) (hstack : v'.stack = v.stack)
    (hkind : control.kind ≠ .loop) :
    Advances module result host m := by
  have hframes := hsim.controls
  have hroom := hsim.room
  have hlength : v.controls.length = v'.controls.length + 1 := by
    rw [hcontrols, length_cons]
  rw [hcontrols] at hframes
  have hposition := step_one_byte hstep (.inr hop)
  rcases frames_top hframes hkind with ⟨e, frames, hm, ⟨els, extent, hcloses⟩, hrest⟩
  -- The verifier is at the `end` of the innermost block, so this is its position.
  have he : e = v.position := by
    cases hcloses with
    | here _ _ => rfl
    | elseArm opcode _ _ _ => exact absurd (hop.symm.trans opcode) nofun
    | inside opcode _ _ => exact absurd hop (opcode hlength).2
  have hsim' := sim_outside hrest (Visited.step hsim.visited hstep) rfl
    (fun depth els' e' extent' hdepth hcloses' =>
      hcloses'.next hstep (fun hheight => by omega))
    (by omega) (hsim.stack.trans hstack.symm) hsim.live
  rw [hposition, hsim.position] at hsim'
  rw [hsim.position] at hop
  refine wp_turn hop (wp_closeBlock hm ?_ ⟨v', hsim'⟩)
  rw [he, hsim.position, Nat.add_sub_cancel]

/-- A turn at the end of the code, which returns an `i32`. -/
theorem turn_finish (hsim : Sim module result v m)
    {rest : List ValType} (hop : opcodeAt module.code v.position = some .endBlock)
    (hcontrols : v.controls = [control]) (hstack : v.stack = .i32 :: rest) :
    Advances module result host m := by
  have hlength := frames_length hsim.controls
  have htypes := hsim.stack
  rw [hcontrols, length_singleton] at hlength
  rw [hstack] at htypes
  have hm : m.controls = [] := length_eq_zero_iff.mp (by omega)
  rcases types_cons_i32 htypes with ⟨value, values, hvalue, _⟩
  rw [hsim.position] at hop
  exact wp_turn hop (wp_return hm hvalue trivial)

/-- The verifier went on from where the interpreter is: it has the entry of the
    body left, at least. -/
theorem sim_next
    (haccepts : Accepted module result)
    (hsim : Sim module result v m) :
    ∃ v', verifyStep module result module.code v = .ok v' := by
  cases haccepts v hsim.visited with
  | done _ ended =>
    have hlength := frames_length hsim.controls
    rw [(ended_closed hsim.visited ended).1] at hlength
    exact absurd hlength nofun
  | step hstep _ => exact ⟨_, hstep⟩

/-- A regular turn keeps the simulation, or ends as a run may. The cases are
    the steps the verifier can have made from here. -/
theorem sim_turn (hhost : host.Answers)
    (haccepts : Accepted module (some .i32)) (hsim : Sim module (some .i32) v m)
    (hregular : Regular module (some .i32) m) :
    Advances module (some .i32) host m := by
  rcases sim_next haccepts hsim with ⟨v', hstep⟩
  cases verifyStep_checks hstep with
  | plain fetch operands stack room =>
    exact turn_plain hhost hsim hregular hstep fetch operands stack room rfl
  | drop fetch stack => exact turn_drop hsim hstep fetch stack rfl
  | control fetch _ _ => exact turn_control haccepts hsim hregular hstep fetch.opcode
  | elseArm fetch controls kind _ _ =>
    exact turn_else haccepts hsim hregular fetch.opcode controls kind
  | endBlock fetch controls kind _ => exact turn_end hsim hstep fetch.opcode controls rfl kind
  | finish fetch controls _ stack _ => exact turn_finish hsim fetch.opcode controls stack

/-- The machine a run starts from is where the verifier started. -/
theorem start_sim {i : Instance} (hcount : Cursor.count i.module.code 0 0 = .ok (0, p))
    (hcancelled : i.cancelled = false) (hlive : i.memory.live = true) (state : σ) :
    ∃ start, i.start state = .ok start ∧ Sim i.module result (Verifier.start p) start := by
  rcases except_bind_ok hcount with ⟨⟨locals, q⟩, hleb, hguard⟩
  dsimp only at hguard
  split at hguard
  · next hle =>
      injection hguard with hguard
      injection hguard with hlocals hq
      have hzero : locals = 0 := BitVec.eq_of_toNat_eq hlocals
      refine ⟨⟨p, [], [], i.memory, i.handles, state⟩, ?_, ?_⟩
      · rw [Instance.start, hcancelled, if_neg Bool.false_ne_true, hleb]
        dsimp only
        rw [if_neg (not_not.mpr hzero), hq]
      · refine ⟨Visited.start hcount, rfl, rfl, rfl, ?_, hlive⟩
        simp only [Verifier.start, length_singleton, maxControl]
        omega
  · exact absurd hguard throw_ne_ok

/-- A run of regular turns on a module whose function is declared `() -> i32`
    returns a value or stops out of fuel, with a memory fault or with a trap of
    the host. -/
theorem run_expected (image : List UInt8) (m : Module) (signature : Signature)
    (hparse : Module.parse image = .ok m) (hsignature : entrySignature image = some signature)
    (hentry : signature.IsEntry) (host : Host σ) (hhost : host.Answers) (i : Instance)
    (hmodule : i.module = m) (hcancelled : i.cancelled = false) (hlive : i.memory.live = true)
    (state : σ) (fuel : Nat)
    (hregular : ∀ start, i.start state = .ok start →
      Along (turn m.code host) (Regular m (some .i32)) (min fuel maxFuel) start) :
    ∃ start stop final, i.start state = .ok start ∧
      execute m.code host (min fuel maxFuel) start = (stop, final) ∧
      (i.run host state fuel).1 = stop.result ∧ stop.Expected := by
  rcases parse_verified hparse with ⟨index, _, hdeclared, hverified⟩
  rw [hsignature, Option.some.injEq] at hdeclared
  have hresult : (m.types.get index).result = some .i32 := by
    rw [← hdeclared]
    exact hentry.2
  have haccepts : Accepted m (some .i32) := by
    intro w hw
    rw [← hresult] at hw ⊢
    exact accepts_of_visited hverified hw
  rcases verifyBody_accepts hverified with ⟨p, hcount, _⟩
  subst hmodule
  have hstarted : ∃ start, i.start state = .ok start ∧
      Sim i.module (some .i32) (Verifier.start p) start :=
    start_sim hcount hcancelled hlive state
  rcases hstarted with ⟨start, hstart, hsim⟩
  rcases hexecute : execute i.module.code host (min fuel maxFuel) start with ⟨stop, final⟩
  refine ⟨start, stop, final, hstart, hexecute, ?_, ?_⟩
  · rw [Instance.run, hstart]
    dsimp only
    rw [hexecute]
  · have hsound := loop_sound (fun m' : Machine σ => decide (m'.position = i.module.code.length))
      (Stop.trapped .typeMismatch) (Stop.trapped .fuelExhausted) (turn i.module.code host)
      (fun m' => ∃ v, Sim i.module (some .i32) v m') (Regular i.module (some .i32)) Stop.Expected
      ?_ trivial ?_ (min fuel maxFuel) start ⟨_, hsim⟩ (hregular start hstart)
    · rw [execute] at hexecute
      rw [hexecute] at hsound
      exact hsound
    · -- The verifier stepped over a byte here, so the code has not run off its end.
      rintro m' ⟨v, hsim'⟩
      rcases sim_next haccepts hsim' with ⟨v', hstep⟩
      have hposition := step_position hstep
      have hsame := hsim'.position
      exact decide_eq_false (by omega)
    · rintro m' ⟨v, hsim'⟩ hturn
      exact sim_turn hhost haccepts hsim' hturn

/-- Code without an `if` and without an `i64.const` that calls only import
    zero is regular throughout. -/
theorem regular_of_opcodes (hcode : ∀ byte ∈ module.code, Opcode.ofByte byte ≠ .i64Const ∧
      Opcode.ofByte byte ≠ .control .conditional ∧ Opcode.ofByte byte ≠ .elseArm)
    (hcalls : ∀ p < module.code.length, opcodeAt module.code p = some .call →
      (Cursor.lebU32 module.code (p + 1)).map Prod.fst = .ok 0) (m : Machine σ) :
    Regular module result m := by
  have hmem : ∀ {p : Nat} {op : Opcode}, opcodeAt module.code p = some op →
      ∃ byte ∈ module.code, Opcode.ofByte byte = op := by
    intro p op hop
    rcases Option.map_eq_some_iff.mp hop with ⟨byte, hbyte, hop⟩
    exact ⟨byte, mem_of_getElem? hbyte, hop⟩
  have hdigit : ∀ {w : Verifier} {op : Opcode}, ¬ LastDigit module.code w op := by
    rintro w op ⟨value, p, fetch, _⟩
    rcases hmem fetch.opcode with ⟨byte, hbyte, hop⟩
    exact (hcode byte hbyte).1 hop
  constructor
  · intro index p fetch
    have hleb : Cursor.lebU32 module.code (m.position + 1) = .ok (index, p) := fetch.reads
    have hbounds := fetch.bounds
    have hindex := hcalls m.position (by omega) fetch.opcode
    rw [hleb] at hindex
    injection hindex
  · intro v v' kind els e extent _ _ _ _ _ w _
    exact ⟨fun ⟨op, hlast, _⟩ => hdigit hlast, fun ⟨op, hlast, _⟩ => hdigit hlast⟩
  · intro v v' els e extent rest t _ _ hop
    rcases hmem hop with ⟨byte, hbyte, hop⟩
    exact absurd hop (hcode byte hbyte).2.1
  · intro v els e extent t _ _ hop
    rcases hmem hop with ⟨byte, hbyte, hop⟩
    exact absurd hop (hcode byte hbyte).2.2

/-- A host that answers zero and does nothing. -/
def silentHost : Host Unit where
  call := fun _ _ state memory handles => (.ok (some (.i32 0)), state, memory.bytes, handles)

theorem silentHost_answers : silentHost.Answers := fun _ _ _ _ _ => .inl ⟨0, rfl⟩

/-- `block i32.const 0 i32.const 0 call 0 drop end i32.const 7 end`. -/
def callingBody : List UInt8 :=
  [0x00, 0x02, 0x40, 0x41, 0x00, 0x41, 0x00, 0x10, 0x00, 0x1a, 0x0b, 0x41, 0x07, 0x0b]

def callingImage : List UInt8 :=
  imageHeader ++ entryAndLogType ++ [0x02, 0x0c, 0x01] ++ logImport ++ functionAndExport 1 ++
    codeSection callingBody

theorem run_expected_calling : ∃ m, Module.parse callingImage = .ok m ∧
    ∃ start stop final, (Instance.new m).start () = .ok start ∧
      execute m.code silentHost (min 100 maxFuel) start = (stop, final) ∧
      ((Instance.new m).run silentHost () 100).1 = stop.result ∧ stop.Expected := by
  have hcode : (Module.parse callingImage).map Module.code = .ok callingBody := by decide +kernel
  have hsignature : entrySignature callingImage
      = some { parameters := (.i32, .i32), parameterCount := 0, result := some .i32 } := by
    decide +kernel
  rcases parse_of_map hcode with ⟨m, hparse, hcode⟩
  refine ⟨m, hparse, run_expected callingImage m _ hparse hsignature ⟨rfl, rfl⟩ silentHost
    silentHost_answers (Instance.new m) rfl rfl rfl () 100 (fun start _ => ?_)⟩
  refine along_of_forall _ (regular_of_opcodes ?_ ?_) _ _
  · rw [hcode]
    decide +kernel
  · rw [hcode]
    decide +kernel

/-- What an image returns when it is loaded and run. -/
def runImage (image : List UInt8) : Except Error (Except Trap (BitVec 32)) :=
  (Module.parse image).map (fun m => ((Instance.new m).run silentHost () 100).1)

/-- `i32.const 1 i32.const 0 if drop i64.const 0 end i64.const 0 i64.add drop
    i32.const 0 end`. The arm of the `if` replaces an operand below it. -/
def confusedImage : List UInt8 :=
  imageHeader ++ entryType ++ functionAndExport 0 ++
    codeSection [0x00, 0x41, 0x01, 0x41, 0x00, 0x04, 0x40, 0x1a, 0x42, 0x00, 0x0b, 0x42, 0x00,
      0x7c, 0x1a, 0x41, 0x00, 0x0b]

/-- `i32.const 0 if i64.const 11 drop end i32.const 7 end`. The operand of the
    `i64.const` is the byte of an `end`. -/
def misreadImage : List UInt8 :=
  imageHeader ++ entryType ++ functionAndExport 0 ++
    codeSection [0x00, 0x41, 0x00, 0x04, 0x40, 0x42, 0x0b, 0x1a, 0x0b, 0x41, 0x07, 0x0b]

/-- `i32.const 0 i32.const 0 call 1 end`, with two imports of `log`. -/
def deniedImage : List UInt8 :=
  imageHeader ++ entryAndLogType ++ [0x02, 0x17, 0x02] ++ logImport ++ logImport ++
    functionAndExport 2 ++ codeSection [0x00, 0x41, 0x00, 0x41, 0x00, 0x10, 0x01, 0x0b]

/-- Three accepted images with an entry of type `() -> i32`, run with a host
    that never refuses: the interpreter traps with each of three traps of its
    own that a verified module should never meet. -/
theorem verified_traps :
    (entrySignature confusedImage).map Signature.result = some (some .i32) ∧
      (entrySignature confusedImage).map Signature.parameterCount = some 0 ∧
      runImage confusedImage = .ok (.error .typeMismatch) ∧
    (entrySignature misreadImage).map Signature.result = some (some .i32) ∧
      (entrySignature misreadImage).map Signature.parameterCount = some 0 ∧
      runImage misreadImage = .ok (.error .stackUnderflow) ∧
    (entrySignature deniedImage).map Signature.result = some (some .i32) ∧
      (entrySignature deniedImage).map Signature.parameterCount = some 0 ∧
      runImage deniedImage = .ok (.error .hostDenied) := by
  decide +kernel

end Wasm

end Norx
