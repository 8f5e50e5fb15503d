import Norx.Ipc.Types

/-!
# Event Queues

An `EventQueue` keeps up to eight events in a ring of optional entries. Only
the side that takes events out waits, and `pop` wakes nobody.

## Main definitions

* `EventQueue`, `push`, `pop`, `popBlocking`, `close`: The queue.

## Theorems

* `step_cases`, `step_error`, `wellFormed_after`: What a call does, what one
  that fails does, and what every run keeps.
* `transfer_moves`, `conserved_after`: Each call moves the events as its answer
  says, so what went in came out or is still there.
-/

namespace Norx

namespace Ipc

open Fallible Fifo

structure EventQueue where
  entries : Slots eventCapacity (Option Event)
  head : Nat
  tail : Nat
  length : Nat
  closed : Bool
  waiters : WaitQueue

/-- A program over an event queue. -/
abbrev EventM := Fallible EventQueue Error

namespace EventQueue

def new : EventQueue :=
  { entries := Slots.replicate eventCapacity none, head := 0, tail := 0, length := 0,
    closed := false, waiters := WaitQueue.new }

/-- An event written at the tail, and a waiter woken. -/
def pushed (q : EventQueue) (event : Event) : EventQueue :=
  { q with entries := q.entries.set q.tail (some event)
           tail := (q.tail + 1) % eventCapacity
           length := q.length + 1
           waiters := q.waiters.wakeOne.2 }

/-- The event at the head cleared. -/
def popped (q : EventQueue) : EventQueue :=
  { q with entries := q.entries.set q.head none
           head := (q.head + 1) % eventCapacity
           length := q.length - 1 }

def push (event : Event) : EventM Unit := do
  if (← read (·.closed)) = true then fail .closed
  if (← read (·.length)) = eventCapacity then fail .full
  modify (·.pushed event)

def pop : EventM Event := do
  if (← read (·.length)) = 0 then
    if (← read (·.closed)) = true then fail .closed else fail .empty
  let event ← lookup .empty (fun q => q.entries.get q.head)
  modify popped
  return event

def enqueueWaiter (waiter : UInt32) : EventM Unit :=
  within waiters (fun q w => { q with waiters := w }) (WaitQueue.enqueue waiter)

def popBlocking (waiter : UInt32) : EventM (Option Event) :=
  orEnqueue .empty (enqueueWaiter waiter) pop

def close (q : EventQueue) : EventQueue :=
  { q with closed := true, waiters := q.waiters.wakeOne.2 }

/-! ### The events held -/

/-- The events held, oldest first. -/
def contents (q : EventQueue) : List Event :=
  items eventCapacity q.entries.get q.head q.length

/-- The positions belong together, and no entry between them is empty. -/
def WellFormed (q : EventQueue) : Prop :=
  Occupied eventCapacity q.entries.get q.head q.tail q.length

theorem wellFormed_new : WellFormed new := Occupied.empty (by decide) _

section Cells

variable {q : EventQueue} (h : WellFormed q)

include h

theorem contents_length : q.contents.length = q.length := h.items_length

theorem occupied_pushed (hroom : q.length ≠ eventCapacity) (event : Event) :
    WellFormed (q.pushed event) ∧ (q.pushed event).contents = q.contents ++ [event] :=
  h.push (Nat.lt_of_le_of_ne h.ring.length_le hroom)
    (fun _ hj => Slots.get_set_other q.entries (some event) hj)
    (Slots.get_set_self q.entries (some event) h.ring.tail_lt)

theorem occupied_popped (hsome : q.length ≠ 0) {event : Event}
    (hfirst : q.entries.get q.head = some event) :
    WellFormed q.popped ∧ q.contents = event :: q.popped.contents :=
  h.pop hsome (fun _ hj => Slots.get_set_other q.entries none hj) hfirst

end Cells

/-! ### The calls in full -/

/-- Why an event is turned away whatever room there is. -/
def pushRefusal (q : EventQueue) : Option Error := if q.closed = true then some .closed else none

/-- What is reported of a queue without events. -/
def whenEmpty (q : EventQueue) : Error := if q.closed = true then .closed else .empty

theorem push_spec (event : Event) (q : EventQueue) :
    wp (push event)
      (fun _ q' => q.pushRefusal = none ∧ q.closed ≠ true ∧ q.length ≠ eventCapacity ∧
        q' = q.pushed event)
      (fun e q' => q' = q ∧ (q.pushRefusal = some e ∨
        q.pushRefusal = none ∧ q.length = eventCapacity ∧ e = .full)) q := by
  simp only [push, wp_bind, wp_read, wp_ite, wp_fail, wp_modify, true_and, and_true, pushRefusal]
  refine ⟨fun hclosed => .inl (if_pos hclosed), fun hopen => ⟨fun hfull => ?_, fun hroom => ?_⟩⟩
  · exact .inr ⟨if_neg hopen, hfull⟩
  · exact ⟨if_neg hopen, hopen, hroom⟩

variable {q : EventQueue}

theorem pop_spec (h : WellFormed q) :
    wp pop
      (fun event q' => q.length ≠ 0 ∧ q' = q.popped ∧ q.entries.get q.head = some event)
      (fun e q' => q' = q ∧ q.length = 0 ∧ e = q.whenEmpty) q := by
  simp only [pop, wp_bind, wp_read, wp_ite, wp_fail, wp_modify, wp_lookup, wp_pure, true_and,
    whenEmpty]
  refine ⟨fun hnone => ⟨fun hclosed => ?_, fun hopen => ?_⟩, fun hsome =>
    ⟨fun event hfirst => ⟨hsome, hfirst⟩, fun hfirst => ?_⟩⟩
  · exact ⟨hnone, (if_pos hclosed).symm⟩
  · exact ⟨hnone, (if_neg hopen).symm⟩
  · -- The entry at the head of a queue with events is never empty.
    rcases h.first hsome with ⟨event, hused⟩
    rw [hfirst] at hused
    cases hused

/-- What a call that can fail does to a queue. -/
inductive Change (q : EventQueue) : EventQueue → Prop
  | same : Change q q
  | pushed (event : Event) (hopen : q.closed ≠ true) (hroom : q.length ≠ eventCapacity) :
      Change q (q.pushed event)
  | popped (hsome : q.length ≠ 0) : Change q q.popped
  | waits (w : WaitQueue) (hopen : q.closed ≠ true) : Change q { q with waiters := w }

theorem push_change (event : Event) (q : EventQueue) :
    wp (push event) (fun _ q' => Change q q') (fun _ q' => q' = q) q := by
  refine wp_mono (push_spec event q) ?_ (fun _ _ h => h.1)
  rintro _ q' ⟨-, hopen, hroom, rfl⟩
  exact Change.pushed event hopen hroom

theorem pop_change (h : WellFormed q) :
    wp pop (fun _ q' => Change q q') (fun _ q' => q' = q) q := by
  refine wp_mono (pop_spec h) ?_ (fun _ _ h => h.1)
  rintro _ q' ⟨hsome, rfl, -⟩
  exact Change.popped hsome

theorem popBlocking_change (waiter : UInt32) (h : WellFormed q) :
    wp (popBlocking waiter) (fun _ q' => Change q q') (fun _ q' => q' = q) q := by
  refine orEnqueue_change _ _ waiter rfl (wp_mono (pop_spec h) ?_ ?_)
  · rintro _ q' ⟨hsome, rfl, -⟩
    exact Change.popped hsome
  · rintro e q' ⟨rfl, _, hwhy⟩
    refine ⟨rfl, fun hempty w => Change.waits w fun hclosed => ?_⟩
    rw [hempty, whenEmpty, if_pos hclosed] at hwhy
    cases hwhy

/-! ### The calls on the list of events -/

theorem push_refines (event : Event) (h : WellFormed q) :
    ((push event q).1, (push event q).2.contents)
      = offer eventCapacity .full q.pushRefusal event q.contents := by
  refine eq_of_wp contents (wp_mono (push_spec event q) ?_ ?_)
  · rintro _ q' ⟨haccepted, _, hroom, rfl⟩
    have hroom' : q.contents.length ≠ eventCapacity := by rwa [contents_length h]
    rw [haccepted, (occupied_pushed h hroom event).2]
    simp only [offer, if_neg hroom']
  · rintro e q' ⟨rfl, hrefused | ⟨haccepted, hfull, rfl⟩⟩
    · rw [hrefused]
      rfl
    · have hfull' : q'.contents.length = eventCapacity := by rwa [contents_length h]
      rw [haccepted]
      simp only [offer, if_pos hfull']

theorem pop_refines (h : WellFormed q) :
    ((pop q).1, (pop q).2.contents) = accept q.whenEmpty none (fun _ => none) q.contents := by
  refine eq_of_wp contents (wp_mono (pop_spec h) ?_ ?_)
  · rintro event q' ⟨hsome, rfl, hfirst⟩
    rw [(occupied_popped h hsome hfirst).2]
    rfl
  · rintro e q' ⟨rfl, hnone, rfl⟩
    have hnil : q'.contents = [] := by
      rw [← List.length_eq_zero_iff, contents_length h, hnone]
    rw [hnil]
    rfl

theorem popBlocking_refines (waiter : UInt32) (h : WellFormed q) :
    ((popBlocking waiter q).1, (popBlocking waiter q).2.contents)
      = orWait .empty (WaitQueue.enqueue waiter q.waiters).1
          (accept q.whenEmpty none (fun _ => none) q.contents) :=
  orEnqueue_eq .empty (enqueueWaiter waiter) pop contents
    (fun _ => unchanged_of_wp (pop_change h)) rfl (pop_refines h)

/-! ### Runs -/

end EventQueue

/-- A call to an event queue. -/
inductive EventCall where
  | push (event : Event)
  | pop
  | popBlocking (waiter : UInt32)
  | close

namespace EventQueue

/-- The queue a call leaves. -/
def step (q : EventQueue) : EventCall → EventQueue
  | .push event => (push event q).2
  | .pop => (pop q).2
  | .popBlocking waiter => (popBlocking waiter q).2
  | .close => q.close

/-- The error a call returns. -/
def error (q : EventQueue) : EventCall → Option Error
  | .push event => errorOf (push event q).1
  | .pop => errorOf (pop q).1
  | .popBlocking waiter => errorOf (popBlocking waiter q).1
  | .close => none

/-- What went in or came out, by the answer to the call. -/
def transfer (q : EventQueue) : EventCall → Transfer Event
  | .push event => .of (fun _ => .put event) ((push event q).1.map some)
  | .pop => .of .take ((pop q).1.map some)
  | .popBlocking waiter => .of .take (popBlocking waiter q).1
  | .close => .rest

variable {q : EventQueue}

theorem change_of_wp {α : Type} {x : EventM α}
    (h : wp x (fun _ q' => Change q q') (fun _ q' => q' = q) q) : Change q (x q).2 := by
  refine of_wp (wp_mono h (fun _ _ hchange => hchange) ?_)
  rintro _ _ rfl
  exact Change.same

/-- Every call changes the queue, or closes it. -/
theorem step_cases {P : EventQueue → Prop} (h : WellFormed q) (call : EventCall)
    (hchange : ∀ {q'}, Change q q' → P q') (hclose : P q.close) : P (q.step call) := by
  cases call with
  | push event => exact hchange (change_of_wp (push_change event q))
  | pop => exact hchange (change_of_wp (pop_change h))
  | popBlocking waiter => exact hchange (change_of_wp (popBlocking_change waiter h))
  | close => exact hclose

/-- A call that fails leaves the queue as it was. -/
theorem step_error (h : WellFormed q) (call : EventCall) {e : Error} (he : q.error call = some e) :
    q.step call = q := by
  cases call with
  | push event => exact unchanged_of_wp (push_change event q) (errorOf_eq_some.mp he)
  | pop => exact unchanged_of_wp (pop_change h) (errorOf_eq_some.mp he)
  | popBlocking waiter =>
    exact unchanged_of_wp (popBlocking_change waiter h) (errorOf_eq_some.mp he)
  | close => cases he

theorem wellFormed_change {q' : EventQueue} (h : WellFormed q) (hchange : Change q q') :
    WellFormed q' := by
  cases hchange with
  | same => exact h
  | pushed event _ hroom => exact (occupied_pushed h hroom event).1
  | popped hsome =>
    rcases h.first hsome with ⟨event, hfirst⟩
    exact (occupied_popped h hsome hfirst).1
  | waits => exact h

theorem wellFormed_step (h : WellFormed q) (call : EventCall) :
    WellFormed (q.step call) :=
  step_cases h call (wellFormed_change h) h

/-- Only closing the queue closes it. -/
theorem change_closed {q' : EventQueue} (hchange : Change q q') : q'.closed = q.closed := by
  cases hchange with
  | same | pushed | popped | waits => rfl

theorem step_closed (h : WellFormed q) (call : EventCall) :
    (q.step call).closed = true ↔ q.closed = true ∨ call = .close := by
  have hprogram {q' : EventQueue} (hchange : Change q q') (hcall : call ≠ .close) :
      q'.closed = true ↔ q.closed = true ∨ call = .close := by
    rw [change_closed hchange]
    simp [hcall]
  cases call with
  | push event => exact hprogram (change_of_wp (push_change event q)) nofun
  | pop => exact hprogram (change_of_wp (pop_change h)) nofun
  | popBlocking waiter => exact hprogram (change_of_wp (popBlocking_change waiter h)) nofun
  | close => simp [step, close]

/-- The queue after any calls to a new one. -/
def after (calls : List EventCall) : EventQueue := run step new calls

theorem wellFormed_after (calls : List EventCall) : WellFormed (after calls) :=
  run_keeps step (P := WellFormed) (fun _ call h => wellFormed_step h call) calls wellFormed_new

/-- Each call moves the events as its answer says. -/
theorem transfer_moves (h : WellFormed q) (call : EventCall) :
    (q.transfer call).Moves eventCapacity q.contents (q.step call).contents := by
  have hlength : q.contents.length ≤ eventCapacity := by
    rw [contents_length h]
    exact h.ring.length_le
  cases call with
  | push event => exact offer_moves (push_refines event h) hlength
  | pop => exact accept_moves (pop_refines h)
  | popBlocking waiter => exact orWait_moves (popBlocking_refines waiter h) (accept_moves Prod.mk.eta)
  | close => exact rfl

theorem conserved_after (calls : List EventCall) :
    Conserved eventCapacity (trace step transfer new calls) (after calls).contents :=
  transfers_conserved step transfer contents WellFormed
    (fun _ call h => ⟨wellFormed_step h call, transfer_moves h call⟩)
    wellFormed_new rfl calls

end EventQueue

end Ipc

end Norx
