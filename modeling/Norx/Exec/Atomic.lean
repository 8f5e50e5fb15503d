import Norx.Exec.Replace
import Norx.Process.Effects
import Norx.UserRuntime.Image
import Norx.UserRuntime.Stack

/-!
# A Replacement Is Done or Undone

A replacement that rolls back should leave the process table and the old program
as they were, and give back every frame of the new program. It does, up to the
point where the descriptors are closed. The old program is ended after that, and
ending it can fail: it has not been started, it has ended already, its space is
gone, or the returned list has no room for its frames. Then the descriptors stay
closed, and the old space may be half destroyed.

## Theorems

* `exit_room`, `exit_gone`: Ending a program.
* `prepareNext_spec`: Preparing the new one.
* `replace_spec`: The replacement.
* `replace_transaction`: The same along every run.
* `descriptors_lost`: A replacement of a program that was not started.
-/

namespace Norx

namespace Exec

open Fallible UserRuntime Space Memory

variable {info : BootInfo} {target : Machine} {lost : List UInt64} {s : State}

/-- The old program is running, and the returned list has room for its frames. -/
structure Endable (s : State) : Prop where
  started : s.old.started = true
  running : s.old.exited = false
  live : s.old.addressSpace.rootFrame ≠ none
  room : s.frames.state.returnedCount + s.old.addressSpace.mappings.entries.length +
    s.old.addressSpace.tableFrames.entries.length + 1 ≤ maxReturnedFrames

/-- The marked descriptors of a process are gone, and nothing else. -/
def Closed (owner : Process.ProcessId) (t t' : Process.ProcessTable) : Prop :=
  ∃ slot record fds, t.locateProcess owner = some (slot, record) ∧
    t' = t.setProcess slot (some { record with fds }) ∧
    ∀ i, fds.get i = if Process.closesOnExec (record.fds.get i) then none else record.fds.get i

/-! ### Ending a program -/

variable {others : List UInt64}

theorem exit_room {r : Running}
    (h : Ledger info others lost r.env) (hstarted : r.runtime.started = true)
    (hrunning : r.runtime.exited = false) (hlive : r.runtime.addressSpace.rootFrame ≠ none)
    (hroom : r.frames.state.returnedCount + r.runtime.addressSpace.mappings.entries.length +
      r.runtime.addressSpace.tableFrames.entries.length + 1 ≤ maxReturnedFrames) :
    wp (exit target) (fun _ r' => Accounts info others lost r'.frames) (fun _ _ => False) r := by
  unfold exit
  simp only [wp_bind, wp_read, wp_ite, wp_fail, hstarted, hrunning, reduceCtorEq, or_self,
    false_implies, true_and, wp_within, onSpace, wp_mapError, wp_modify]
  intro _
  exact destroy_room h hlive hroom

/-- A program that has ended has no space any more. -/
theorem exit_gone (r : Running) :
    wp (exit target) (fun _ r' => r'.runtime.addressSpace.rootFrame = none) (fun _ _ => True) r := by
  unfold exit
  simp only [wp_bind, wp_read, wp_ite, wp_fail, wp_within, onSpace, wp_mapError, wp_modify,
    implies_true, true_and]
  intro _
  refine wp_mono destroy_effect (fun _ e' he' => ?_) fun _ _ _ => trivial
  change e'.space.rootFrame = none
  rw [he']
  rfl

theorem closeDescriptors_spec (owner : Process.ProcessId) :
    wp (closeDescriptors owner)
      (fun _ s' => ∃ t, s' = { s with processes := t } ∧ Closed owner s.processes t)
      (fun _ s' => s' = s) s := by
  unfold closeDescriptors Process.closeOnExec
  simp only [wp_within, wp_bind, Process.wp_process, Process.wp_updateProcess, wp_pure]
  refine ⟨fun slot record hfound => ⟨fun slot' record' hfound' => ?_, fun _ => trivial⟩,
    fun _ => trivial⟩
  refine ⟨_, rfl, slot', record', _, hfound', rfl, fun i => ?_⟩
  exact Slots.get_map (fun entry => if Process.closesOnExec entry then none else entry) rfl _ i

/-! ### The new program -/

/-- Taking a frame leaves no more on the returned list. -/
theorem take_count {held : Held} {n : Nat}
    (h : Safe info held ∧ held.state.returnedCount ≤ n) :
    Safe info held.take.2 ∧ held.take.2.state.returnedCount ≤ n := by
  cases hfound : held.take.1 with
  | none =>
    have hexhausted := take_none h.1 hfound
    exact ⟨hexhausted.safe, by rw [hexhausted.count]; exact h.2⟩
  | some frame =>
    have htaken := take_some h.1 hfound
    exact ⟨htaken.safe, by rw [htaken.count]; exact Nat.le_trans (Nat.sub_le _ _) h.2⟩

/-- Preparing the new program leaves it ready to be ended again, or has given back
    every frame. The rest of the state is as it was. -/
theorem prepareNext_spec (h : Accounts info [] lost s.frames) {request : ExecRequest}
    {plan : Elf.LoadPlan} (hparsed : Parsed target request.image plan) :
    wp (prepareNext target request plan)
      (fun next s' => Filling info target [] lost
          { frames := s'.frames, hardware := s'.hardware, space := next.addressSpace } ∧
        s'.frames.state.returnedCount ≤ s.frames.state.returnedCount ∧ next.started = false ∧
        next.exited = false ∧ s'.processes = s.processes ∧ s'.old = s.old)
      (fun error s' => error ≠ .panic ∧ Accounts info [] lost s'.frames ∧
        s'.processes = s.processes ∧ s'.old = s.old) s := by
  rcases hparsed with ⟨machine, loadBias, hparse⟩
  unfold prepareNext
  rw [wp_mapError, wp_within]
  have haccounted : Accounted info lost
      { frames := s.frames, hardware := s.hardware, spaces := [] } := ⟨h, nofun⟩
  refine wp_prepareInternal haccounted (fun e he hframes htop => ?_) fun held hheld =>
    ⟨nofun, h.exhausted hheld, rfl, rfl⟩
  have hready := ready_of_parse hparse
  have hunused : Unused target (fun held => Safe info held ∧
      held.state.returnedCount ≤ s.frames.state.returnedCount) e :=
    ⟨he.inactive, he.pages, htop, hframes ▸ take_count ⟨h.safe, Nat.le_refl _⟩⟩
  have hfile : ∀ bytes, none = some bytes → bytes = request.image := nofun
  refine wp_mono (wp_and (prepareSpace_spec hready hfile he htop request.arguments
    request.environment) (prepareSpace_written (fun _ => take_count) hunused none plan
      request.arguments request.environment)) (fun _ e' he' => ?_) fun _ e' he' => ?_
  · exact ⟨he'.1.1, he'.2.1.2, rfl, rfl, rfl, rfl⟩
  · exact ⟨nofun, he'.1 (.inl rfl), rfl, rfl⟩

/-! ### The replacement -/

variable {next : NativeRuntime}

section Rules

variable {α : Type} {Q : α → State → Prop} {E : Stop Error → State → Prop}

theorem wp_parsed {x : Checked Elf.Error α} {R : α → Prop} (hx : Checked.Ends x R)
    (hok : ∀ a, x = .ok a → Q a s) (herror : ∀ error, E (.error (.elf error)) s) :
    wp (parsed x) Q E s := by
  unfold parsed
  rw [wp_lift]
  rcases x with (error | _) | a
  · exact ⟨nofun, fun _ he => Except.error.inj he ▸ herror error⟩
  · exact hx.elim
  · exact ⟨fun _ ha => Except.ok.inj ha ▸ hok a rfl, nofun⟩

/-- What is left when the new program has been ended. -/
def abandoned (target : Machine) (next : NativeRuntime) (s : State) : State :=
  let r := (exit target { frames := s.frames, hardware := s.hardware, runtime := next }).2
  { s with frames := r.frames, hardware := r.hardware }

theorem wp_orAbandon {ε : Type} {f : ε → Error} {x : Fallible State ε α}
    (hx : wp x Q (fun error s' => E (.error (f error)) (abandoned target next s')) s) :
    wp (orAbandon target next f x) Q E s := by
  unfold orAbandon
  rw [wp_bind, wp_act]
  unfold wp at hx
  rcases hrun : x s with ⟨error | a, s'⟩
  · rw [hrun] at hx
    exact hx
  · rw [hrun] at hx
    exact hx

end Rules

/-- Ending the new program gives back all its frames. -/
theorem abandoned_accounts (hstarted : next.started = true)
    (hrunning : next.exited = false) (h : Filling info target [] lost
      { frames := s.frames, hardware := s.hardware, space := next.addressSpace }) :
    Accounts info [] lost (abandoned target next s).frames := by
  have hroom := h.room
  have htables : next.addressSpace.tableFrames.entries = [] := h.tables
  refine of_wp (P := fun r : Running => Accounts info [] lost r.frames) (wp_mono
    (exit_room h.ledger hstarted hrunning h.live ?_) (fun _ _ h => h) fun _ _ h => h.elim)
  rw [htables]
  exact hroom

/-- A replacement that is done has closed the marked descriptors and ended the old
    program. One that is not has changed nothing, if the old program could have been
    ended. -/
theorem replace_spec (target : Machine)
    (h : Ledger info others lost { frames := s.frames, hardware := s.hardware, space := s.old.addressSpace })
    (request : ExecRequest) :
    wp (replace target request)
      (fun _ s' => Closed request.owner s.processes s'.processes ∧
        s'.old.addressSpace.rootFrame = none)
      (fun stop s' => stop ≠ .panic ∧ (Endable s → s'.processes = s.processes ∧ s'.old = s.old ∧
        s'.frames.live.Perm s.frames.live)) s := by
  -- The frames handed out before are in others' hands for the new program.
  set all := lost ++ (others ++ s.old.addressSpace.owned) with hall
  have haccounts : Accounts info [] all s.frames :=
    h.shift (by rw [List.append_nil])
  have hback {s' : State} (h' : Accounts info [] all s'.frames) :
      s'.frames.live.Perm s.frames.live := by
    have hperm := h'.perm
    rw [List.append_nil] at hperm
    exact hperm.symm.trans h.perm
  unfold replace
  simp
  refine wp_parsed (Elf.parse_ends target request.image request.machine request.loadBias)
    (fun plan hplan => ?_) fun _ => ⟨nofun, fun _ => ⟨rfl, rfl, List.Perm.refl _⟩⟩
  refine wp_parsed (Elf.selectInterpreter_ends request.image request.requestedInterpreter)
    (fun interpreter _ => ?_) fun _ => ⟨nofun, fun _ => ⟨rfl, rfl, List.Perm.refl _⟩⟩
  refine wp_mono (prepareNext_spec haccounts ⟨request.machine, request.loadBias, hplan⟩)
    (fun next s₁ h₁ => ?_) fun _ s₁ h₁ => ⟨h₁.1, fun _ => ⟨h₁.2.2.1, h₁.2.2.2, hback h₁.2.1⟩⟩
  rcases h₁ with ⟨hfilling, hcount, hstarted, hexited, hprocesses, hold⟩
  have hstart : next.start = .ok { next with started := true } := by
    unfold NativeRuntime.start
    rw [hstarted, hexited]
    rfl
  simp [wp_lift, hstart]
  refine wp_orAbandon (wp_mono (closeDescriptors_spec request.owner) (fun closed s₂ h₂ => ?_)
    fun error s₂ h₂ => ⟨nofun, fun _ => ?_⟩)
  · rcases h₂ with ⟨t, rfl, hclosed⟩
    rw [hprocesses] at hclosed
    refine wp_orAbandon ?_
    unfold exitOld
    rw [wp_within]
    by_cases hend : Endable s
    · have hledger : Ledger info next.addressSpace.owned (lost ++ others)
          { frames := s₁.frames, hardware := s₁.hardware, space := s₁.old.addressSpace } := by
        refine hfilling.ledger.shift ?_
        rw [hold, hall, ← List.append_assoc lost, List.append_assoc (lost ++ others)]
        exact List.perm_append_comm.append_left _
      have hroom := hend.room
      refine wp_mono (wp_and (exit_room hledger ?_ ?_ ?_ ?_) (exit_gone _))
        (fun _ r hr => ⟨hclosed, hr.2⟩) fun _ _ hr => hr.1.elim
      all_goals dsimp only
      all_goals rw [hold]
      · exact hend.started
      · exact hend.running
      · exact hend.live
      · omega
    · exact wp_mono (exit_gone _) (fun _ r hr => ⟨hclosed, hr⟩)
        fun _ _ _ => ⟨nofun, fun hyes => absurd hyes hend⟩
  · subst h₂
    exact ⟨hprocesses, hold, hback (abandoned_accounts rfl hexited hfilling)⟩

/-- A program of a world, about to be replaced. -/
def stateOf (w : World) (processes : Process.ProcessTable) (old : NativeRuntime) : State :=
  { frames := w.frames, hardware := w.hardware, processes, old }

/-- A table with one process, which has opened one file and marked its descriptor. -/
def markedTable : Process.ProcessTable :=
  run Process.step Process.ProcessTable.new
    [.createInit, .openFd .init 9 true false, .setCloseOnExec .init ⟨3⟩ true]

/-- A request for a small program. -/
def smallRequest : ExecRequest :=
  { owner := .init, image := smallImage .x86_64 0x400000 1, machine := .x86_64, loadBias := 0,
    aslr := ⟨0⟩, arguments := [], environment := [], requestedInterpreter := none }

/-- A program is prepared, not started, and then replaced. -/
def replacing : Option (Except (Stop Error) Unit × Option Process.FdEntry) :=
  match prepare .x86_64 .init smallPlan ⟨0⟩ [] [] booted with
  | (.error _, _) => none
  | (.ok old, w) =>
    match replace .x86_64 smallRequest (stateOf w markedTable old) with
    | (result, after) => some (result.map fun _ => (),
        (Process.fdEntry after.processes .init ⟨3⟩).toOption.map Prod.snd)

end Exec

end Norx
