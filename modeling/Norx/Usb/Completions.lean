import Norx.Lib.Run

/-!
# Completions and Their Requests

How `xhci.rs` finds the completion of a command or a transfer. All of them come in one
event ring, and an event is taken for the one waited for if its kind and, for a transfer,
its slot and endpoint are right. Which request it is of is not looked at.

A wait ends after so many polls. If the controller completes the request later, the next
request with the same key takes the event for its own. The numbers of the requests are
not in the source; they say which is which.

## Main definitions

* `Host.step`: A call, a turn of a wait, or a completion by the controller.
* `Fresh`: A request meets no older one with its key.

## Theorems

* `completions_belong`: If none does, events are accepted for their own requests only.
-/

namespace Norx

namespace Usb

/-- What events are told apart by. -/
inductive Key where
  | command
  | transfer (slot endpoint : UInt8)
  deriving DecidableEq

/-- A request, or the event that completes it. -/
structure Request where
  number : Nat
  key : Key
  deriving DecidableEq

structure Waiting where
  request : Request
  polls : Nat

/-- `wait` is the loop of `wait_for_command` or `wait_for_transfer` with the polls it has
    left, `interrupt` the endpoint's `pending` with the polls made. -/
structure Host where
  outstanding : List Request := []
  events : List Request := []
  next : Nat := 0
  wait : Option Waiting := none
  interrupt : Option Waiting := none
  accepted : List (Request × Request) := []

def pollLimit : Nat := 100000

def interruptTimeoutPolls : Nat := 1000000

def Host.enqueue (h : Host) (key : Key) : Host :=
  { h with outstanding := ⟨h.next, key⟩ :: h.outstanding, next := h.next + 1 }

/-- `command`, or a transfer, up to its wait. -/
def Host.request (h : Host) (key : Key) : Host :=
  { h.enqueue key with wait := some ⟨⟨h.next, key⟩, pollLimit⟩ }

/-- The next event is looked at for a request, and is gone then. -/
def Host.look (h : Host) (request : Request) : Bool × Host :=
  match h.events with
  | [] => (false, h)
  | event :: events =>
    if event.key = request.key then
      (true, { h with events, accepted := (request, event) :: h.accepted })
    else (false, { h with events })

/-- One turn of the wait. A transfer for which it ends is cancelled, by a command. -/
def Host.poll (h : Host) : Host :=
  match h.wait with
  | none => h
  | some ⟨request, 0⟩ =>
    if request.key = .command then { h with wait := none } else h.request .command
  | some ⟨request, polls + 1⟩ =>
    let (found, h) := h.look request
    { h with wait := if found then none else some ⟨request, polls⟩ }

/-- The first part of `poll_interrupt_endpoint`. -/
def Host.submitInterrupt (h : Host) (key : Key) : Host :=
  match h.interrupt with
  | some _ => h
  | none => { h.enqueue key with interrupt := some ⟨⟨h.next, key⟩, 0⟩ }

/-- The rest of it. -/
def Host.pollInterrupt (h : Host) : Host :=
  match h.interrupt with
  | none => h
  | some ⟨request, polls⟩ =>
    let (found, h) := h.look request
    if found then { h with interrupt := none }
    else if interruptTimeoutPolls ≤ polls + 1 then { h with interrupt := none }.request .command
    else { h with interrupt := some ⟨request, polls + 1⟩ }

/-- The controller completes a request. -/
def Host.complete (h : Host) (request : Request) : Host :=
  if request ∈ h.outstanding then
    { h with outstanding := h.outstanding.erase request, events := h.events ++ [request] }
  else h

/-- What happens next. The driver makes no other call while it waits, and forgets the interrupt
    endpoint when the device is gone. -/
inductive Move where
  | request (key : Key)
  | poll
  | submitInterrupt (key : Key)
  | pollInterrupt
  | disconnect
  | complete (request : Request)

def Host.step (h : Host) : Move → Host
  | .request key => if h.wait.isSome then h else h.request key
  | .poll => h.poll
  | .submitInterrupt key => if h.wait.isSome then h else h.submitInterrupt key
  | .pollInterrupt => if h.wait.isSome then h else h.pollInterrupt
  | .disconnect => { h with interrupt := none }
  | .complete request => h.complete request

def Host.present (h : Host) : List Request := h.outstanding ++ h.events

def Host.expected (h : Host) : List Request :=
  (h.wait.toList ++ h.interrupt.toList).map Waiting.request

/-- A request that is made now has a key of its own: No older one with it is without its
    completion, has one that was not looked at, or is still waited for. -/
def Fresh (h : Host) (move : Move) : Prop :=
  ∀ request ∈ (h.step move).outstanding, request.number = h.next →
    ∀ older ∈ h.present ++ h.expected, older.key ≠ request.key

/-! ### Waiting -/

structure Inv (h : Host) : Prop where
  only : ∀ request ∈ h.expected, ∀ other ∈ h.present, other.key = request.key → other = request
  accepted : ∀ pair ∈ h.accepted, pair.1 = pair.2

/-- What a step can do: Make one request, and take an event for one that is expected. -/
structure Does (h h' : Host) (made : Option Request) : Prop where
  next : ∀ request ∈ made, request.number = h.next ∧ request ∈ h'.outstanding
  expected : ∀ request ∈ h'.expected, request ∈ h.expected ∨ request ∈ made
  present : ∀ request ∈ h'.present, request ∈ h.present ∨ request ∈ made
  accepted : ∀ pair ∈ h'.accepted, pair ∈ h.accepted ∨
    pair.1 ∈ h.expected ∧ pair.2 ∈ h.present ∧ pair.2.key = pair.1.key

variable {h h' : Host} {request : Request}

theorem inv_does {made : Option Request} {move : Move} (hinv : Inv h) (hfresh : Fresh h move)
    (hdoes : Does h (h.step move) made) : Inv (h.step move) := by
  have hnew : ∀ request ∈ made, ∀ older ∈ h.present ++ h.expected, older.key ≠ request.key :=
    fun request hmade => hfresh request (hdoes.next request hmade).2 (hdoes.next request hmade).1
  refine ⟨fun request hrequest other hother hkey => ?_, fun pair hpair => ?_⟩
  · rcases hdoes.expected request hrequest with hold | hmade <;>
      rcases hdoes.present other hother with hpresent | hother
    · exact hinv.only request hold other hpresent hkey
    · exact absurd hkey.symm (hnew other hother request (List.mem_append_right _ hold))
    · exact absurd hkey (hnew request hmade other (List.mem_append_left _ hpresent))
    · exact Option.some.inj (hother.symm.trans hmade)
  · rcases hdoes.accepted pair hpair with hold | ⟨hexpected, hpresent, hkey⟩
    · exact hinv.accepted pair hold
    · exact (hinv.only _ hexpected _ hpresent hkey).symm

attribute [local grind] Host.request Host.enqueue Host.present Host.expected

theorem does_nothing : ∃ made, Does h h made :=
  ⟨none, by constructor <;> grind⟩

theorem request_does (key : Key) : ∃ made, Does h (h.request key) made :=
  ⟨some ⟨h.next, key⟩, by constructor <;> grind⟩

theorem poll_does : ∃ made, Does h h.poll made := by
  unfold Host.poll
  split
  · exact does_nothing
  · split
    · exact ⟨none, by constructor <;> grind⟩
    · exact request_does .command
  · exact ⟨none, by constructor <;> grind [Host.look]⟩

theorem submitInterrupt_does (key : Key) : ∃ made, Does h (h.submitInterrupt key) made := by
  unfold Host.submitInterrupt
  split
  · exact does_nothing
  · exact ⟨some ⟨h.next, key⟩, by constructor <;> grind⟩

theorem pollInterrupt_does : ∃ made, Does h h.pollInterrupt made := by
  unfold Host.pollInterrupt
  split
  · exact does_nothing
  case _ request polls hpending =>
    dsimp only
    split_ifs
    · exact ⟨none, by constructor <;> grind [Host.look]⟩
    · exact ⟨some ⟨h.next, .command⟩, by constructor <;> grind [Host.look]⟩
    · exact ⟨none, by constructor <;> grind [Host.look]⟩

theorem step_does (move : Move) : ∃ made, Does h (h.step move) made := by
  unfold Host.step
  cases move with
  | request key =>
    dsimp only
    split
    exacts [does_nothing, request_does key]
  | poll => exact poll_does
  | submitInterrupt key =>
    dsimp only
    split
    exacts [does_nothing, submitInterrupt_does key]
  | pollInterrupt =>
    dsimp only
    split
    exacts [does_nothing, pollInterrupt_does]
  | disconnect => exact ⟨none, by constructor <;> grind⟩
  | complete request =>
    exact ⟨none, by constructor <;> grind [Host.complete, List.mem_of_mem_erase]⟩

/-- If every request has a key of its own when it is made, an event is accepted for the
    request it completes only. -/
theorem completions_belong (moves : List Move) (hok : Obeys Host.step Fresh {} moves) :
    ∀ pair ∈ (run Host.step {} moves).accepted, pair.1 = pair.2 := by
  have hstep : ∀ h move, Inv h → Fresh h move → Inv (Host.step h move) := by
    intro h move hinv hfresh
    obtain ⟨made, hdoes⟩ := step_does (h := h) move
    exact inv_does hinv hfresh hdoes
  exact (run_invariant Host.step Fresh Inv hstep moves {} ⟨nofun, nofun⟩ hok).accepted

theorem completions_belong_command :
    (run Host.step {} [.request .command, .complete ⟨0, .command⟩, .poll]).accepted.all
      fun pair => pair.1 = pair.2 := by
  simp only [List.all_eq_true, decide_eq_true_eq]
  exact completions_belong _ ⟨nofun, nofun, nofun, trivial⟩

theorem run_polls (hevents : h.events = []) (n : Nat) :
    run Host.step { h with wait := some ⟨request, n⟩ } (List.replicate n .poll)
      = { h with wait := some ⟨request, 0⟩ } := by
  induction n with
  | zero => rfl
  | succ n ih => simpa [List.replicate_succ, run, Host.step, Host.poll, Host.look, hevents] using ih

/-- A command is completed after its wait, and the next one takes the event. -/
theorem late_command : (run Host.step {} (.request .command :: (List.replicate pollLimit .poll ++
    [.poll, .complete ⟨0, .command⟩, .request .command, .poll]))).accepted
      = [(⟨1, .command⟩, ⟨0, .command⟩)] := by
  have hstart : Host.step {} (.request .command)
      = { ({} : Host).enqueue .command with wait := some ⟨⟨0, .command⟩, pollLimit⟩ } := rfl
  rw [run, hstart, run_append, run_polls rfl]
  rfl

end Usb

end Norx
