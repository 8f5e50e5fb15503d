import Norx.Lib.Fallible
import Norx.Lib.Fifo
import Norx.Lib.Slots

/-!
# IPC Data Model

What the channels, shared rings and event queues of `ipc.rs` have in common:
the errors, the bytes of a message and the queue of waiters.

A message is a fixed buffer with the number of bytes of it in use, which is at
most the size of the buffer; the field that says so makes the slice taken of
the buffer one that is always in range. A slice passed in by a caller is a
list, and a slice passed in to be written to is returned rewritten.

A blocking call tries the plain one first. If that fails for the reason that
can pass, the caller is put among the waiters; `orEnqueue` is that pattern, at
each call with its own reason and its own waiters.

## Main definitions

* `Error`, `WaitResult`, `Event`: What operations return and carry.
* `WaitQueue`, `WaitQueue.enqueue`, `WaitQueue.wakeOne`: The waiters.

## Theorems

* `enqueue_spec`, `len_wakeOne`: What the two operations do to the number of
  waiters.
* `wp_orEnqueue`, `orEnqueue_change`, `orEnqueue_refines`, `orEnqueue_eq`: A blocking call in
  terms of the plain one.
-/

namespace Norx

namespace Ipc

open Fallible Slots

def channelCapacity : Nat := 4
def eventCapacity : Nat := 8
def maxMessage : Nat := 64
def ringCapacity : Nat := 4
def maxWaiters : Nat := 4

inductive Error where
  | closed
  | empty
  | full
  | tooLarge
  | bufferTooSmall
  | permissionDenied
  | revoked
  | waitQueueFull
  | alreadyWaiting
  | invalidWaiter
  deriving DecidableEq, Repr

inductive WaitResult where
  | completed
  | blocked
  deriving DecidableEq, Repr

structure Event where
  kind : UInt16
  data : UInt64
  deriving DecidableEq, Repr

def WaitResult.toOption : WaitResult → Option Unit
  | completed => some ()
  | blocked => none

/-- The error of a call that failed. -/
def errorOf {α : Type} : Except Error α → Option Error
  | .ok _ => none
  | .error e => some e

variable {e : Error}

theorem errorOf_eq_some {α : Type} {x : Except Error α} : errorOf x = some e ↔ x = .error e := by
  cases x with
  | ok | error => simp [errorOf]

theorem errorOf_map {α β : Type} (g : α → β) (x : Except Error α) :
    errorOf (x.map g) = errorOf x := by
  cases x with
  | ok a => rfl
  | error e => rfl

theorem errorOf_of_map {α β : Type} {g : α → β} {x : Except Error α} (h : x.map g = .error e) :
    errorOf x = some e := by
  rw [← errorOf_map g, h]
  rfl

theorem errorOf_of_wp {σ α : Type} {x : Fallible σ Error α} {s : σ}
    (h : wp x (fun _ _ => False) (fun e' _ => e' = e) s) : errorOf (x s).1 = some e := by
  unfold wp at h
  rcases hx : x s with ⟨e' | a, s'⟩
  · rw [hx] at h
    exact congrArg some h
  · rw [hx] at h
    exact h.elim

/-! ### Messages -/

/-- A buffer and the number of its bytes in use. -/
structure Message where
  length : Nat
  bytes : Slots maxMessage UInt8
  fits : length ≤ maxMessage

namespace Message

/-- The empty message with a slice copied to its start. -/
def copyOf (bytes : List UInt8) (h : bytes.length ≤ maxMessage) : Message :=
  { length := bytes.length, bytes := (Slots.replicate maxMessage 0).load bytes, fits := h }

/-- The bytes in use. -/
def payload (message : Message) : List UInt8 := message.bytes.leading message.length

theorem payload_length (message : Message) : message.payload.length = message.length :=
  leading_length _ message.fits

theorem payload_copyOf (bytes : List UInt8) (h : bytes.length ≤ maxMessage) :
    (copyOf bytes h).payload = bytes :=
  leading_load _ h

end Message

/-- Copy a slice over the start of an output slice. -/
def overwrite (output bytes : List UInt8) : List UInt8 := bytes ++ output.drop bytes.length

theorem take_overwrite {output bytes : List UInt8} {length : Nat} (h : bytes.length = length) :
    (overwrite output bytes).take length = bytes := by
  unfold overwrite
  rw [← h, List.take_left]

/-- The bytes a call delivered, from the length it returned and the output it
    left. -/
def delivered (reading : Nat × List UInt8) : List UInt8 := reading.2.take reading.1

/-- Why an item is not handed over to this output. -/
def outputRefusal (output item : List UInt8) : Option Error :=
  if output.length < item.length then some .bufferTooSmall else none

/-! ### Waiters -/

structure WaitQueue where
  waiters : Slots maxWaiters (Option UInt32)

namespace WaitQueue

def new : WaitQueue := { waiters := Slots.replicate maxWaiters none }

def contains (q : WaitQueue) (waiter : UInt32) : Bool :=
  q.waiters.any (fun entry => decide (entry = some waiter))

def len (q : WaitQueue) : Nat := q.waiters.count Option.isSome

def enqueue (waiter : UInt32) : Fallible WaitQueue Error Unit := do
  if waiter = 0 then fail .invalidWaiter
  if (← read (·.contains waiter)) = true then fail .alreadyWaiting
  let slot ← lookup .waitQueueFull (·.waiters.position Option.isNone)
  modify (fun q => { q with waiters := q.waiters.set slot (some waiter) })

def wakeOne (q : WaitQueue) : Option UInt32 × WaitQueue :=
  match q.waiters.position Option.isSome with
  | none => (none, q)
  | some slot => (q.waiters.get slot, { q with waiters := q.waiters.set slot none })

/-- A waiter taken on is one more; one turned away changes nothing. -/
theorem enqueue_spec (waiter : UInt32) (q : WaitQueue) :
    wp (enqueue waiter) (fun _ q' => q'.len = q.len + 1) (fun _ q' => q' = q) q := by
  simp [enqueue]
  intro _ _ slot hslot
  rcases position_eq_some.mp hslot with ⟨hlt, hfree, _⟩
  refine count_set_true _ _ hlt ?_ rfl
  rw [Option.isNone_iff_eq_none.mp hfree]
  rfl

/-- Waking leaves one waiter fewer, if there was one. -/
theorem len_wakeOne (q : WaitQueue) : q.wakeOne.2.len = q.len - 1 := by
  unfold wakeOne
  cases hslot : q.waiters.position Option.isSome with
  | none =>
    have hzero : q.len = 0 :=
      count_eq_zero _ _ (position_eq_none.mp hslot)
    simp [hzero]
  | some slot =>
    rcases position_eq_some.mp hslot with ⟨hlt, hused, _⟩
    have hcount := count_set_false q.waiters Option.isSome (a := none) hlt hused rfl
    exact Nat.eq_sub_of_add_eq hcount

end WaitQueue

/-! ### Blocking calls -/

section Blocking

variable {σ α : Type} (blocker : Error) (enqueue : Fallible σ Error Unit)
  (attempted : Fallible σ Error α)

/-- Try first. On the error that can pass wait for it, and return nothing. -/
def orEnqueue : Fallible σ Error (Option α) := do
  match (← attempt attempted) with
  | .ok a => return some a
  | .error e =>
    if e = blocker then
      enqueue
      return none
    else fail e

/-- A blocking call that returns nothing but whether it is done. -/
def waitResult (blocking : Fallible σ Error (Option Unit)) : Fallible σ Error WaitResult := do
  match (← blocking) with
  | some _ => return .completed
  | none => return .blocked

theorem wp_waitResult (blocking : Fallible σ Error (Option Unit)) (Q : σ → Prop)
    (E : Error → σ → Prop) (s : σ) :
    wp (waitResult blocking) (fun _ => Q) E s ↔ wp blocking (fun _ => Q) E s := by
  rw [waitResult, wp_bind]
  unfold wp
  rcases blocking s with ⟨_ | _ | _, s'⟩
  · exact Iff.rfl
  · exact Iff.rfl
  · exact Iff.rfl

theorem waitResult_apply (blocking : Fallible σ Error (Option Unit)) (s : σ) :
    ((waitResult blocking s).1.map WaitResult.toOption, (waitResult blocking s).2)
      = blocking s := by
  refine refines_of_wp id WaitResult.toOption ((wp_bind _ _ _ _ _).mpr ?_)
  unfold wp
  rcases blocking s with ⟨_ | _ | _, s'⟩
  · rfl
  · rfl
  · rfl

theorem wp_orEnqueue (Q : Option α → σ → Prop) (E : Error → σ → Prop) (s : σ) :
    wp (orEnqueue blocker enqueue attempted) Q E s ↔
      wp attempted (fun a => Q (some a))
        (fun e s' => (e = blocker → wp enqueue (fun _ => Q none) E s') ∧ (e ≠ blocker → E e s'))
        s := by
  simp [orEnqueue]

/-- What holds after the plain call, and with any waiters where the reason can
    pass, holds after the blocking one. A call turned away changes nothing. -/
theorem orEnqueue_change {part : σ → WaitQueue} {put : σ → WaitQueue → σ} (waiter : UInt32)
    {s : σ} {C : σ → Prop} (hput : put s (part s) = s)
    (h : wp attempted (fun _ => C) (fun e s' => s' = s ∧ (e = blocker → ∀ q, C (put s q))) s) :
    wp (orEnqueue blocker (within part put (WaitQueue.enqueue waiter)) attempted) (fun _ => C)
      (fun _ s' => s' = s) s := by
  rw [wp_orEnqueue]
  refine wp_mono h (fun _ _ hs' => hs') ?_
  rintro e s' ⟨rfl, hwaits⟩
  refine ⟨fun hblocked => ?_, fun _ => rfl⟩
  rw [wp_within]
  refine wp_mono (WaitQueue.enqueue_spec waiter (part s')) (fun _ q _ => hwaits hblocked q) ?_
  rintro _ _ rfl
  exact hput

variable {wait : Except Error Unit}

/-- A blocking call waits where the plain one fails for the reason that can
    pass, provided a failure and the waiting leave alone what is looked at. -/
theorem orEnqueue_refines {τ γ : Type} (f : σ → List τ) (g : α → γ) {s : σ}
    {r : Except Error γ × List τ} (hfail : ∀ e, (attempted s).1 = .error e → (attempted s).2 = s)
    (hwait : ((enqueue s).1, f (enqueue s).2) = (wait, f s))
    (hplain : ((attempted s).1.map g, f (attempted s).2) = r) :
    ((orEnqueue blocker enqueue attempted s).1.map (Option.map g),
      f (orEnqueue blocker enqueue attempted s).2) = Fifo.orWait blocker wait r := by
  refine refines_of_wp f (Option.map g) ((wp_orEnqueue _ _ _ _ _ _).mpr ?_)
  subst hplain
  unfold wp
  rcases hrun : attempted s with ⟨e | a, s'⟩
  · have hsame : s' = s := by
      have := hfail e (by rw [hrun])
      rwa [hrun] at this
    subst hsame
    injection hwait with hanswer hkeeps
    refine ⟨fun hblocked => ?_, fun hother => ?_⟩
    · rcases henqueue : enqueue s' with ⟨e' | _, s''⟩
      · rw [henqueue] at hanswer hkeeps
        simp only [Except.map, Fifo.orWait, if_pos hblocked, ← hanswer, hkeeps]
      · rw [henqueue] at hanswer hkeeps
        simp [Except.map, Fifo.orWait, if_pos hblocked, ← hanswer, hkeeps]
    · simp only [Except.map, Fifo.orWait, if_neg hother]
  · rfl

theorem orEnqueue_eq {τ : Type} (f : σ → List τ) {s : σ} {r : Except Error α × List τ}
    (hfail : ∀ e, (attempted s).1 = .error e → (attempted s).2 = s)
    (hwait : ((enqueue s).1, f (enqueue s).2) = (wait, f s))
    (hplain : ((attempted s).1, f (attempted s).2) = r) :
    ((orEnqueue blocker enqueue attempted s).1,
      f (orEnqueue blocker enqueue attempted s).2) = Fifo.orWait blocker wait r := by
  have hmap := orEnqueue_refines (r := r) blocker enqueue attempted f id hfail hwait
    (by rw [Except.map_id]; exact hplain)
  rwa [Option.map_id, Except.map_id] at hmap

end Blocking

end Ipc

end Norx
