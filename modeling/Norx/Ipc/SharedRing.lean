import Norx.Ipc.Types
import Norx.Process.Types

/-!
# Shared Rings

A `SharedRing` passes items from one process to another through four buffers,
each with the number of its bytes in use. The two processes are fixed when the
ring is made, every call names the process that makes it, and either of them
can revoke the ring for good.

A buffer is not cleared when it is consumed and only its first bytes are
overwritten when it is published to, so what the ring holds is read off the
buffers and the lengths together.

## Main definitions

* `SharedRing`, `publish`, `consume`, `publishBlocking`, `consumeBlocking`,
  `revoke`, `pending`: The ring.

## Theorems

* `step_cases`, `step_error`, `wellFormed_after`: What a call does, what one
  that fails does, and what every run keeps.
* `transfer_moves`, `conserved_after`: Each call moves the items as its answer
  says, so what went in came out or is still there.
* `inactive_error`, `inactive_transfers`: A revoked ring answers every call with
  `Revoked` and moves nothing.
* `put_caller`, `take_caller`: Only the producer puts items in, and only the
  consumer takes them out.
-/

namespace Norx

namespace Ipc

open Fallible Fifo Process Slots

structure SharedRing where
  producer : ProcessId
  consumer : ProcessId
  slots : Slots ringCapacity (Slots maxMessage UInt8)
  lengths : Slots ringCapacity Nat
  head : Nat
  tail : Nat
  length : Nat
  active : Bool
  producerWaiters : WaitQueue
  consumerWaiters : WaitQueue

/-- A program over a ring. -/
abbrev RingM := Fallible SharedRing Error

variable {bytes : List UInt8}

namespace SharedRing

def new (producer consumer : ProcessId) : SharedRing :=
  { producer, consumer, slots := Slots.replicate ringCapacity (Slots.replicate maxMessage 0),
    lengths := Slots.replicate ringCapacity 0, head := 0, tail := 0, length := 0, active := true,
    producerWaiters := WaitQueue.new, consumerWaiters := WaitQueue.new }

/-- An item written at the tail, and a consumer woken. -/
def published (r : SharedRing) (bytes : List UInt8) : SharedRing :=
  { r with slots := r.slots.set r.tail ((r.slots.get r.tail).load bytes)
           lengths := r.lengths.set r.tail bytes.length
           tail := (r.tail + 1) % ringCapacity
           length := r.length + 1
           consumerWaiters := r.consumerWaiters.wakeOne.2 }

/-- The item at the head given up, and a producer woken. -/
def consumed (r : SharedRing) : SharedRing :=
  { r with lengths := r.lengths.set r.head 0
           head := (r.head + 1) % ringCapacity
           length := r.length - 1
           producerWaiters := r.producerWaiters.wakeOne.2 }

def checkActive : RingM Unit :=
  lift (fun r => if r.active then .ok () else .error .revoked)

def publish (caller : ProcessId) (bytes : List UInt8) : RingM Unit := do
  checkActive
  if caller ≠ (← read (·.producer)) then fail .permissionDenied
  if maxMessage < bytes.length then fail .tooLarge
  if (← read (·.length)) = ringCapacity then fail .full
  modify (·.published bytes)

def consume (caller : ProcessId) (output : List UInt8) : RingM (Nat × List UInt8) := do
  checkActive
  if caller ≠ (← read (·.consumer)) then fail .permissionDenied
  if (← read (·.length)) = 0 then fail .empty
  let length ← read (fun r => r.lengths.get r.head)
  if output.length < length then fail .bufferTooSmall
  let bytes ← read (fun r => (r.slots.get r.head).leading length)
  modify consumed
  return (length, overwrite output bytes)

def enqueueProducer (waiter : UInt32) : RingM Unit :=
  within producerWaiters (fun r q => { r with producerWaiters := q }) (WaitQueue.enqueue waiter)

def enqueueConsumer (waiter : UInt32) : RingM Unit :=
  within consumerWaiters (fun r q => { r with consumerWaiters := q }) (WaitQueue.enqueue waiter)

def publishBlocking (caller : ProcessId) (waiter : UInt32) (bytes : List UInt8) :
    RingM WaitResult :=
  waitResult (orEnqueue .full (enqueueProducer waiter) (publish caller bytes))

def consumeBlocking (caller : ProcessId) (waiter : UInt32) (output : List UInt8) :
    RingM (Option (Nat × List UInt8)) :=
  orEnqueue .empty (enqueueConsumer waiter) (consume caller output)

def revoke (caller : ProcessId) : RingM Unit := do
  checkActive
  if caller ≠ (← read (·.producer)) ∧ caller ≠ (← read (·.consumer)) then fail .permissionDenied
  modify ({ · with active := false })

def pending (r : SharedRing) : Nat := r.length

/-! ### The items held -/

/-- The item in a buffer. -/
def item (r : SharedRing) (slot : Nat) : List UInt8 :=
  (r.slots.get slot).leading (r.lengths.get slot)

/-- The items held, oldest first. -/
def contents (r : SharedRing) : List (List UInt8) := window ringCapacity r.item r.head r.length

/-- The positions belong together, and no length is past the end of its
    buffer. -/
structure WellFormed (r : SharedRing) : Prop where
  ring : Ring ringCapacity r.head r.tail r.length
  fits : ∀ slot, r.lengths.get slot ≤ maxMessage

theorem contents_length (r : SharedRing) : r.contents.length = r.length := window_length _

theorem wellFormed_new (producer consumer : ProcessId) : WellFormed (new producer consumer) where
  ring := Ring.empty (by decide)
  fits := by
    intro slot
    have hzero : (new producer consumer).lengths.get slot = 0 := get_replicate_default slot
    rw [hzero]
    exact Nat.zero_le _

section Items

variable {r : SharedRing} (h : WellFormed r)

include h

theorem wellFormed_published (hroom : r.length ≠ ringCapacity) (hfits : bytes.length ≤ maxMessage) :
    WellFormed (r.published bytes) where
  ring := h.ring.push (Nat.lt_of_le_of_ne h.ring.length_le hroom)
  fits := by
    intro slot
    change (r.lengths.set r.tail bytes.length).get slot ≤ maxMessage
    rw [get_set _ _ h.ring.tail_lt]
    split_ifs
    · exact hfits
    · exact h.fits slot

theorem wellFormed_consumed (hsome : r.length ≠ 0) : WellFormed r.consumed where
  ring := h.ring.pop hsome
  fits := by
    intro slot
    change (r.lengths.set r.head 0).get slot ≤ maxMessage
    rw [get_set _ _ h.ring.head_lt]
    split_ifs
    · exact Nat.zero_le _
    · exact h.fits slot

theorem contents_published (hroom : r.length ≠ ringCapacity) (hfits : bytes.length ≤ maxMessage) :
    (r.published bytes).contents = r.contents ++ [bytes] := by
  have hwindow := window_push r.item (r.published bytes).item h.ring
    (Nat.lt_of_le_of_ne h.ring.length_le hroom) (fun slot hslot => ?_)
  · have htail : (r.published bytes).item r.tail = bytes := by
      unfold item published
      rw [get_set_self _ _ h.ring.tail_lt, get_set_self _ _ h.ring.tail_lt]
      exact leading_load _ hfits
    rw [htail] at hwindow
    exact hwindow
  · unfold item published
    rw [get_set_other _ _ hslot, get_set_other _ _ hslot]

theorem contents_consumed (hsome : r.length ≠ 0) :
    r.contents = r.item r.head :: r.consumed.contents := by
  refine window_pop h.ring hsome fun slot hslot => ?_
  unfold item consumed
  rw [get_set_other _ _ hslot]

end Items

/-! ### The calls in full -/

/-- Why an item is turned away whatever room there is. -/
def publishRefusal (r : SharedRing) (caller : ProcessId) (bytes : List UInt8) : Option Error :=
  if r.active = false then some .revoked
  else if caller ≠ r.producer then some .permissionDenied
  else if maxMessage < bytes.length then some .tooLarge
  else none

/-- Why a caller is given no item at all. -/
def consumeRefusal (r : SharedRing) (caller : ProcessId) : Option Error :=
  if r.active = false then some .revoked
  else if caller ≠ r.consumer then some .permissionDenied
  else none

theorem wp_checkActive (Q : Unit → SharedRing → Prop) (E : Error → SharedRing → Prop)
    (r : SharedRing) :
    wp checkActive Q E r ↔ (r.active = true → Q () r) ∧ (r.active = false → E .revoked r) := by
  rw [checkActive, wp_lift]
  cases hactive : r.active with
  | true => simp [Unique.forall_iff]
  | false => simp

theorem publish_spec (caller : ProcessId) (bytes : List UInt8) (r : SharedRing) :
    wp (publish caller bytes)
      (fun _ r' => r.publishRefusal caller bytes = none ∧ r.active = true ∧
        r.length ≠ ringCapacity ∧ bytes.length ≤ maxMessage ∧ r' = r.published bytes)
      (fun e r' => r' = r ∧ (r.publishRefusal caller bytes = some e ∨
        r.publishRefusal caller bytes = none ∧ r.active = true ∧ r.length = ringCapacity ∧
          e = .full)) r := by
  simp only [publish, wp_bind, wp_checkActive, wp_read, wp_ite, wp_fail, wp_modify, true_and,
    and_true, publishRefusal]
  refine ⟨fun hactive => ⟨fun hother => ?_, fun hcaller => ⟨fun hlarge => ?_, fun hsmall =>
    ⟨fun hfull => ?_, fun hroom => ?_⟩⟩⟩, fun hrevoked => .inl (if_pos hrevoked)⟩
  · rw [if_neg (by simp [hactive]), if_pos hother]
    exact .inl rfl
  · rw [if_neg (by simp [hactive]), if_neg hcaller, if_pos hlarge]
    exact .inl rfl
  · rw [if_neg (by simp [hactive]), if_neg hcaller, if_neg hsmall]
    exact .inr ⟨rfl, hactive, hfull⟩
  · rw [if_neg (by simp [hactive]), if_neg hcaller, if_neg hsmall]
    exact ⟨rfl, hactive, hroom, Nat.not_lt.mp hsmall⟩

variable {r : SharedRing}

theorem consume_spec (caller : ProcessId) (output : List UInt8) (h : WellFormed r) :
    wp (consume caller output)
      (fun reading r' => r.consumeRefusal caller = none ∧ r.active = true ∧ r.length ≠ 0 ∧
        outputRefusal output (r.item r.head) = none ∧ delivered reading = r.item r.head ∧
        r' = r.consumed)
      (fun e r' => r' = r ∧ (r.consumeRefusal caller = some e ∨
        r.consumeRefusal caller = none ∧ r.active = true ∧ (r.length = 0 ∧ e = .empty ∨
          r.length ≠ 0 ∧ outputRefusal output (r.item r.head) = some e))) r := by
  have hlength : (r.item r.head).length = r.lengths.get r.head :=
    leading_length _ (h.fits r.head)
  simp only [consume, wp_bind, wp_checkActive, wp_read, wp_ite, wp_fail, wp_modify, wp_pure,
    true_and, and_true, consumeRefusal, outputRefusal, hlength]
  refine ⟨fun hactive => ⟨fun hother => ?_, fun hcaller => ⟨fun hnone => ?_, fun hsome =>
    ⟨fun hsmall => ?_, fun hfits => ?_⟩⟩⟩, fun hrevoked => .inl (if_pos hrevoked)⟩
  · rw [if_neg (by simp [hactive]), if_pos hother]
    exact .inl rfl
  · rw [if_neg (by simp [hactive]), if_neg hcaller]
    exact .inr ⟨rfl, hactive, .inl hnone⟩
  · rw [if_neg (by simp [hactive]), if_neg hcaller, if_pos hsmall]
    exact .inr ⟨rfl, hactive, .inr ⟨hsome, rfl⟩⟩
  · rw [if_neg (by simp [hactive]), if_neg hcaller, if_neg hfits]
    exact ⟨rfl, hactive, hsome, rfl, take_overwrite hlength⟩

/-- Whether a process is one of the two. -/
def isParty (r : SharedRing) (caller : ProcessId) : Prop :=
  caller = r.producer ∨ caller = r.consumer

theorem revoke_spec (caller : ProcessId) (r : SharedRing) :
    wp (revoke caller)
      (fun _ r' => r.active = true ∧ r.isParty caller ∧ r' = { r with active := false })
      (fun e r' => r' = r ∧ (r.active = false ∧ e = .revoked ∨
        r.active = true ∧ ¬ r.isParty caller ∧ e = .permissionDenied)) r := by
  simp only [revoke, wp_bind, wp_checkActive, wp_read, wp_ite, wp_fail, wp_modify, true_and,
    and_true, isParty, reduceCtorEq, and_false, or_false]
  refine ⟨fun hactive => ⟨fun hother => ?_, fun hcaller => ?_⟩, fun hrevoked => hrevoked⟩
  · exact .inr ⟨hactive, fun hparty => hparty.elim hother.1 hother.2⟩
  · refine ⟨hactive, ?_⟩
    by_contra hnot
    exact hcaller ⟨fun hp => hnot (.inl hp), fun hc => hnot (.inr hc)⟩

/-- What a call other than `revoke` does to a ring. -/
inductive Change (r : SharedRing) : SharedRing → Prop
  | same : Change r r
  | published (bytes : List UInt8) (hactive : r.active = true) (hroom : r.length ≠ ringCapacity)
      (hfits : bytes.length ≤ maxMessage) : Change r (r.published bytes)
  | consumed (hactive : r.active = true) (hsome : r.length ≠ 0) : Change r r.consumed
  | producerWaits (q : WaitQueue) (hactive : r.active = true) :
      Change r { r with producerWaiters := q }
  | consumerWaits (q : WaitQueue) (hactive : r.active = true) :
      Change r { r with consumerWaiters := q }

theorem publish_change (caller : ProcessId) (bytes : List UInt8) (r : SharedRing) :
    wp (publish caller bytes) (fun _ r' => Change r r') (fun _ r' => r' = r) r := by
  refine wp_mono (publish_spec caller bytes r) ?_ (fun _ _ h => h.1)
  rintro _ r' ⟨-, hactive, hroom, hfits, rfl⟩
  exact Change.published bytes hactive hroom hfits

theorem consume_change (caller : ProcessId) (output : List UInt8) (h : WellFormed r) :
    wp (consume caller output) (fun _ r' => Change r r') (fun _ r' => r' = r) r := by
  refine wp_mono (consume_spec caller output h) ?_ (fun _ _ h => h.1)
  rintro _ r' ⟨-, hactive, hsome, -, -, rfl⟩
  exact Change.consumed hactive hsome

theorem publishBlocking_change (caller : ProcessId) (waiter : UInt32) (bytes : List UInt8)
    (r : SharedRing) :
    wp (publishBlocking caller waiter bytes) (fun _ r' => Change r r') (fun _ r' => r' = r) r := by
  rw [publishBlocking, wp_waitResult]
  refine orEnqueue_change _ _ waiter rfl (wp_mono (publish_spec caller bytes r) ?_ ?_)
  · rintro _ r' ⟨-, hactive, hroom, hfits, rfl⟩
    exact Change.published bytes hactive hroom hfits
  · rintro e r' ⟨rfl, hreason⟩
    refine ⟨rfl, fun hfull q => Change.producerWaits q ?_⟩
    rcases hreason with hrefused | hfull'
    · subst hfull
      unfold publishRefusal at hrefused
      split_ifs at hrefused
      all_goals cases hrefused
    · exact hfull'.2.1

theorem consumeBlocking_change (caller : ProcessId) (waiter : UInt32) (output : List UInt8)
    (h : WellFormed r) :
    wp (consumeBlocking caller waiter output) (fun _ r' => Change r r') (fun _ r' => r' = r)
      r := by
  refine orEnqueue_change _ _ waiter rfl (wp_mono (consume_spec caller output h) ?_ ?_)
  · rintro _ r' ⟨-, hactive, hsome, -, -, rfl⟩
    exact Change.consumed hactive hsome
  · rintro e r' ⟨rfl, hreason⟩
    refine ⟨rfl, fun hempty q => Change.consumerWaits q ?_⟩
    rcases hreason with hrefused | hempty'
    · subst hempty
      unfold consumeRefusal at hrefused
      split_ifs at hrefused
      all_goals cases hrefused
    · exact hempty'.2.1

/-! ### The calls on the list of items -/

theorem publish_refines (caller : ProcessId) (bytes : List UInt8) (h : WellFormed r) :
    ((publish caller bytes r).1, (publish caller bytes r).2.contents)
      = offer ringCapacity .full (r.publishRefusal caller bytes) bytes r.contents := by
  refine eq_of_wp contents (wp_mono (publish_spec caller bytes r) ?_ ?_)
  · rintro _ r' ⟨haccepted, _, hroom, hfits, rfl⟩
    have hroom' : r.contents.length ≠ ringCapacity := by rwa [contents_length]
    rw [haccepted, contents_published h hroom hfits]
    simp only [offer, if_neg hroom']
  · rintro e r' ⟨rfl, hrefused | ⟨haccepted, _, hfull, rfl⟩⟩
    · rw [hrefused]
      rfl
    · have hfull' : r'.contents.length = ringCapacity := by rwa [contents_length]
      rw [haccepted]
      simp only [offer, if_pos hfull']

theorem consume_refines (caller : ProcessId) (output : List UInt8) (h : WellFormed r) :
    ((consume caller output r).1.map delivered, (consume caller output r).2.contents)
      = accept .empty (r.consumeRefusal caller) (outputRefusal output) r.contents := by
  refine refines_of_wp contents delivered (wp_mono (consume_spec caller output h) ?_ ?_)
  · rintro reading r' ⟨haccepted, _, hsome, hfits, hbytes, rfl⟩
    rw [haccepted, contents_consumed h hsome]
    simp only [accept, hfits, hbytes]
  · rintro e r' ⟨rfl, hrefused | ⟨haccepted, _, ⟨hnone, rfl⟩ | ⟨hsome, hsmall⟩⟩⟩
    · rw [hrefused]
      rfl
    · have hnil : r'.contents = [] := by
        rw [← List.length_eq_zero_iff, contents_length, hnone]
      rw [haccepted, hnil]
      rfl
    · rw [haccepted, contents_consumed h hsome]
      simp only [accept, hsmall]

theorem publishBlocking_refines (caller : ProcessId) (waiter : UInt32) (bytes : List UInt8)
    (h : WellFormed r) :
    ((publishBlocking caller waiter bytes r).1.map WaitResult.toOption,
        (publishBlocking caller waiter bytes r).2.contents)
      = orWait .full (WaitQueue.enqueue waiter r.producerWaiters).1
          (offer ringCapacity .full (r.publishRefusal caller bytes) bytes r.contents) := by
  have hwait := waitResult_apply (orEnqueue .full (enqueueProducer waiter) (publish caller bytes)) r
  have hplain := orEnqueue_eq .full (enqueueProducer waiter) (publish caller bytes) contents
    (fun _ => unchanged_of_wp (publish_change caller bytes r)) rfl (publish_refines caller bytes h)
  rw [← hwait] at hplain
  exact hplain

theorem consumeBlocking_refines (caller : ProcessId) (waiter : UInt32) (output : List UInt8)
    (h : WellFormed r) :
    ((consumeBlocking caller waiter output r).1.map (Option.map delivered),
        (consumeBlocking caller waiter output r).2.contents)
      = orWait .empty (WaitQueue.enqueue waiter r.consumerWaiters).1
          (accept .empty (r.consumeRefusal caller) (outputRefusal output) r.contents) :=
  orEnqueue_refines .empty (enqueueConsumer waiter) (consume caller output) contents delivered
    (fun _ => unchanged_of_wp (consume_change caller output h)) rfl
    (consume_refines caller output h)

/-! ### Runs -/

end SharedRing

/-- A call to a ring. -/
inductive RingCall where
  | publish (caller : ProcessId) (bytes : List UInt8)
  | consume (caller : ProcessId) (output : List UInt8)
  | publishBlocking (caller : ProcessId) (waiter : UInt32) (bytes : List UInt8)
  | consumeBlocking (caller : ProcessId) (waiter : UInt32) (output : List UInt8)
  | revoke (caller : ProcessId)

/-- The process that makes the call. -/
def RingCall.caller : RingCall → ProcessId
  | publish caller _ | consume caller _ | publishBlocking caller _ _
  | consumeBlocking caller _ _ | revoke caller => caller

namespace SharedRing

/-- The ring a call leaves. -/
def step (r : SharedRing) : RingCall → SharedRing
  | .publish caller bytes => (publish caller bytes r).2
  | .consume caller output => (consume caller output r).2
  | .publishBlocking caller waiter bytes => (publishBlocking caller waiter bytes r).2
  | .consumeBlocking caller waiter output => (consumeBlocking caller waiter output r).2
  | .revoke caller => (revoke caller r).2

/-- The error a call returns. -/
def error (r : SharedRing) : RingCall → Option Error
  | .publish caller bytes => errorOf (publish caller bytes r).1
  | .consume caller output => errorOf (consume caller output r).1
  | .publishBlocking caller waiter bytes => errorOf (publishBlocking caller waiter bytes r).1
  | .consumeBlocking caller waiter output => errorOf (consumeBlocking caller waiter output r).1
  | .revoke caller => errorOf (revoke caller r).1

/-- What went in or came out, by the answer to the call. -/
def transfer (r : SharedRing) : RingCall → Transfer (List UInt8)
  | .publish caller bytes => .of (fun _ => .put bytes) ((publish caller bytes r).1.map some)
  | .consume caller output => .of .take (((consume caller output r).1.map delivered).map some)
  | .publishBlocking caller waiter bytes =>
    .of (fun _ => .put bytes) ((publishBlocking caller waiter bytes r).1.map WaitResult.toOption)
  | .consumeBlocking caller waiter output =>
    .of .take ((consumeBlocking caller waiter output r).1.map (Option.map delivered))
  | .revoke _ => .rest

variable {r : SharedRing}

theorem change_of_wp {α : Type} {x : RingM α}
    (h : wp x (fun _ r' => Change r r') (fun _ r' => r' = r) r) : Change r (x r).2 := by
  refine of_wp (wp_mono h (fun _ _ hchange => hchange) ?_)
  rintro _ _ rfl
  exact Change.same

variable {P : SharedRing → Prop}

/-- What `revoke` leaves: the ring as it was, or revoked. -/
theorem revoke_cases (caller : ProcessId) (r : SharedRing) (hsame : P r)
    (hrevoked : r.active = true → r.isParty caller → P { r with active := false }) :
    P (revoke caller r).2 := by
  refine of_wp (wp_mono (revoke_spec caller r) ?_ ?_)
  · rintro _ r' ⟨hactive, hparty, rfl⟩
    exact hrevoked hactive hparty
  · rintro _ r' ⟨rfl, _⟩
    exact hsame

/-- Every call changes the ring, or revokes it. -/
theorem step_cases (h : WellFormed r) (call : RingCall) (hchange : ∀ {r'}, Change r r' → P r')
    (hrevoked : P { r with active := false }) : P (r.step call) := by
  cases call with
  | publish caller bytes => exact hchange (change_of_wp (publish_change caller bytes r))
  | consume caller output => exact hchange (change_of_wp (consume_change caller output h))
  | publishBlocking caller waiter bytes =>
    exact hchange (change_of_wp (publishBlocking_change caller waiter bytes r))
  | consumeBlocking caller waiter output =>
    exact hchange (change_of_wp (consumeBlocking_change caller waiter output h))
  | revoke caller => exact revoke_cases caller r (hchange Change.same) (fun _ _ => hrevoked)

variable {e : Error}

/-- A call that fails leaves the ring as it was. -/
theorem step_error (h : WellFormed r) (call : RingCall) (he : r.error call = some e) :
    r.step call = r := by
  cases call with
  | publish caller bytes =>
    exact unchanged_of_wp (publish_change caller bytes r) (errorOf_eq_some.mp he)
  | consume caller output =>
    exact unchanged_of_wp (consume_change caller output h) (errorOf_eq_some.mp he)
  | publishBlocking caller waiter bytes =>
    exact unchanged_of_wp (publishBlocking_change caller waiter bytes r) (errorOf_eq_some.mp he)
  | consumeBlocking caller waiter output =>
    exact unchanged_of_wp (consumeBlocking_change caller waiter output h) (errorOf_eq_some.mp he)
  | revoke caller =>
    refine unchanged_of_wp (Q := fun _ _ => True) ?_ (errorOf_eq_some.mp he)
    exact wp_mono (revoke_spec caller r) (fun _ _ _ => trivial) (fun _ _ h => h.1)

theorem wellFormed_change {r' : SharedRing} (h : WellFormed r) (hchange : Change r r') :
    WellFormed r' := by
  cases hchange with
  | same => exact h
  | published bytes _ hroom hfits => exact wellFormed_published h hroom hfits
  | consumed _ hsome => exact wellFormed_consumed h hsome
  | producerWaits | consumerWaits => exact ⟨h.ring, h.fits⟩

theorem wellFormed_step (h : WellFormed r) (call : RingCall) :
    WellFormed (r.step call) :=
  step_cases h call (wellFormed_change h) ⟨h.ring, h.fits⟩

/-- The two processes stay those the ring was made for. -/
theorem step_parties (h : WellFormed r) (call : RingCall) :
    (r.step call).producer = r.producer ∧ (r.step call).consumer = r.consumer := by
  refine step_cases (P := fun r' => r'.producer = r.producer ∧ r'.consumer = r.consumer) h call
    (fun hchange => ?_) ⟨rfl, rfl⟩
  cases hchange with
  | same | published | consumed | producerWaits | consumerWaits => exact ⟨rfl, rfl⟩

/-- A call that revokes a ring of these two processes, if it is not revoked
    yet. -/
def Revokes (producer consumer : ProcessId) (call : RingCall) : Prop :=
  call = .revoke producer ∨ call = .revoke consumer

/-- Only revoking the ring revokes it. -/
theorem change_active {r' : SharedRing} (hchange : Change r r') : r'.active = r.active := by
  cases hchange with
  | same | published | consumed | producerWaits | consumerWaits => rfl

theorem step_active (h : WellFormed r) (call : RingCall) :
    (r.step call).active = false ↔ r.active = false ∨ Revokes r.producer r.consumer call := by
  have hprogram {r' : SharedRing} (hchange : Change r r') (hcall : ∀ caller, call ≠ .revoke caller) :
      r'.active = false ↔ r.active = false ∨ Revokes r.producer r.consumer call := by
    rw [change_active hchange]
    simp [Revokes, hcall]
  cases call with
  | publish caller bytes => exact hprogram (change_of_wp (publish_change caller bytes r)) nofun
  | consume caller output => exact hprogram (change_of_wp (consume_change caller output h)) nofun
  | publishBlocking caller waiter bytes =>
    exact hprogram (change_of_wp (publishBlocking_change caller waiter bytes r)) nofun
  | consumeBlocking caller waiter output =>
    exact hprogram (change_of_wp (consumeBlocking_change caller waiter output h)) nofun
  | revoke caller =>
    have hanswer : wp (revoke caller)
        (fun _ r' => r'.active = false ↔
          r.active = false ∨ Revokes r.producer r.consumer (.revoke caller))
        (fun _ r' => r'.active = false ↔
          r.active = false ∨ Revokes r.producer r.consumer (.revoke caller)) r := by
      simp only [Revokes, RingCall.revoke.injEq]
      refine wp_mono (revoke_spec caller r) ?_ ?_
      · rintro _ r' ⟨_, hparty, rfl⟩
        exact ⟨fun _ => .inr hparty, fun _ => rfl⟩
      · rintro _ r' ⟨rfl, ⟨hrevoked, _⟩ | ⟨hactive, hother, _⟩⟩
        · exact ⟨fun _ => .inl hrevoked, fun _ => hrevoked⟩
        · exact ⟨.inl, fun hor => hor.elim id fun hparty => absurd hparty hother⟩
    exact of_wp hanswer

section After

variable (producer consumer : ProcessId) (calls : List RingCall)

/-- The ring after any calls to a new one. -/
def after : SharedRing := run step (new producer consumer) calls

theorem wellFormed_after : WellFormed (after producer consumer calls) :=
  run_keeps step (P := WellFormed) (fun _ call h => wellFormed_step h call) calls
    (wellFormed_new producer consumer)

/-- Each call moves the items as its answer says. -/
theorem transfer_moves (h : WellFormed r) (call : RingCall) :
    (r.transfer call).Moves ringCapacity r.contents (r.step call).contents := by
  have hlength : r.contents.length ≤ ringCapacity := by
    rw [contents_length]
    exact h.ring.length_le
  cases call with
  | publish caller bytes => exact offer_moves (publish_refines caller bytes h) hlength
  | consume caller output => exact accept_moves (consume_refines caller output h)
  | publishBlocking caller waiter bytes =>
    exact orWait_moves (publishBlocking_refines caller waiter bytes h) (offer_moves rfl hlength)
  | consumeBlocking caller waiter output =>
    exact orWait_moves (consumeBlocking_refines caller waiter output h) (accept_moves rfl)
  | revoke caller =>
    exact revoke_cases (P := fun r' => r'.contents = r.contents) caller r rfl (fun _ _ => rfl)

theorem conserved_after :
    Conserved ringCapacity (trace step transfer (new producer consumer) calls)
      (after producer consumer calls).contents :=
  transfers_conserved step transfer contents WellFormed
    (fun _ call h => ⟨wellFormed_step h call, transfer_moves h call⟩)
    (wellFormed_new producer consumer) rfl calls

end After

variable {caller : ProcessId}

/-- What a publishing call is refused for is its answer, blocking or not. -/
theorem publish_refused (h : WellFormed r) (he : r.publishRefusal caller bytes = some e)
    (hfull : e ≠ .full) (waiter : UInt32) :
    r.error (.publish caller bytes) = some e ∧
      r.error (.publishBlocking caller waiter bytes) = some e := by
  have hplain := congrArg Prod.fst (publish_refines caller bytes h)
  have hblocking := congrArg Prod.fst (publishBlocking_refines caller waiter bytes h)
  rw [he] at hplain hblocking
  simp only [offer, orWait, if_neg hfull] at hblocking
  exact ⟨errorOf_eq_some.mpr hplain, errorOf_of_map hblocking⟩

/-- What a consuming call is refused for is its answer, blocking or not. -/
theorem consume_refused (h : WellFormed r) (he : r.consumeRefusal caller = some e)
    (hempty : e ≠ .empty) (waiter : UInt32) (output : List UInt8) :
    r.error (.consume caller output) = some e ∧
      r.error (.consumeBlocking caller waiter output) = some e := by
  have hplain := congrArg Prod.fst (consume_refines caller output h)
  have hblocking := congrArg Prod.fst (consumeBlocking_refines caller waiter output h)
  rw [he] at hplain hblocking
  simp only [accept, orWait, if_neg hempty] at hblocking
  exact ⟨errorOf_of_map hplain, errorOf_of_map hblocking⟩

/-- A revoked ring answers every call with `Revoked`. -/
theorem inactive_error (h : WellFormed r) (hrevoked : r.active = false) (call : RingCall) :
    r.error call = some .revoked := by
  have hpublish (caller : ProcessId) (bytes : List UInt8) :
      r.publishRefusal caller bytes = some .revoked := if_pos hrevoked
  have hconsume (caller : ProcessId) : r.consumeRefusal caller = some .revoked := if_pos hrevoked
  cases call with
  | publish caller bytes => exact (publish_refused h (hpublish caller bytes) nofun 0).1
  | consume caller output => exact (consume_refused h (hconsume caller) nofun 0 output).1
  | publishBlocking caller waiter bytes =>
    exact (publish_refused h (hpublish caller bytes) nofun waiter).2
  | consumeBlocking caller waiter output =>
    exact (consume_refused h (hconsume caller) nofun waiter output).2
  | revoke caller =>
    have hanswer : wp (revoke caller) (fun _ _ => False) (fun e _ => e = .revoked) r := by
      refine wp_mono (revoke_spec caller r) ?_ ?_
      · rintro _ r' ⟨hactive, _⟩
        rw [hrevoked] at hactive
        cases hactive
      · rintro e r' ⟨_, ⟨_, he⟩ | ⟨hactive, _⟩⟩
        · exact he
        · rw [hrevoked] at hactive
          cases hactive
    exact errorOf_of_wp hanswer

variable {call : RingCall}

/-- A call that fails moves nothing. -/
theorem transfer_error (he : r.error call = some e) : r.transfer call = .rest := by
  cases call with
  | revoke caller => rfl
  | _ =>
    simp only [transfer, errorOf_eq_some.mp he]
    rfl

/-- Nothing is moved through a revoked ring. -/
theorem inactive_transfers (h : WellFormed r) (hrevoked : r.active = false) (calls : List RingCall) :
    ∀ t ∈ trace step transfer r calls, t = .rest := by
  induction calls with
  | nil =>
    intro t ht
    cases ht
  | cons call calls ih =>
    have herror := inactive_error h hrevoked call
    intro t ht
    rw [trace, step_error h call herror, List.mem_cons] at ht
    rcases ht with rfl | ht
    · exact transfer_error herror
    · exact ih t ht

/-- Only the producer puts items in. -/
theorem put_caller (h : WellFormed r) (hput : r.transfer call = .put bytes) :
    call.caller = r.producer := by
  have hanswered {e : Error} (herror : r.error call = some e) : False := by
    rw [transfer_error herror] at hput
    cases hput
  by_contra hother
  have hrefusal (bytes : List UInt8) : ∃ e, r.publishRefusal call.caller bytes = some e ∧
      e ≠ .full := by
    unfold publishRefusal
    split_ifs
    · exact ⟨_, rfl, nofun⟩
    · exact ⟨_, rfl, nofun⟩
  cases call with
  | publish caller bytes' =>
    rcases hrefusal bytes' with ⟨e, he, hfull⟩
    exact hanswered (publish_refused h he hfull 0).1
  | publishBlocking caller waiter bytes' =>
    rcases hrefusal bytes' with ⟨e, he, hfull⟩
    exact hanswered (publish_refused h he hfull waiter).2
  | consume | consumeBlocking => exact take_ne_put _ hput
  | revoke caller => cases hput

/-- Only the consumer takes items out. -/
theorem take_caller (h : WellFormed r) (htake : r.transfer call = .take bytes) :
    call.caller = r.consumer := by
  have hanswered {e : Error} (herror : r.error call = some e) : False := by
    rw [transfer_error herror] at htake
    cases htake
  by_contra hother
  have hrefusal : ∃ e, r.consumeRefusal call.caller = some e ∧ e ≠ .empty := by
    unfold consumeRefusal
    split_ifs
    · exact ⟨_, rfl, nofun⟩
    · exact ⟨_, rfl, nofun⟩
  rcases hrefusal with ⟨e, he, hempty⟩
  cases call with
  | publish | publishBlocking => exact put_ne_take _ htake
  | consume caller output => exact hanswered (consume_refused h he hempty 0 output).1
  | consumeBlocking caller waiter output =>
    exact hanswered (consume_refused h he hempty waiter output).2
  | revoke caller => cases htake

end SharedRing

end Ipc

end Norx
