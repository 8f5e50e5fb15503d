import Norx.Ipc.Channel
import Norx.Ipc.EventQueue
import Norx.Ipc.SharedRing

/-!
# The Queues as Bounded FIFOs

Channels, shared rings and event queues are three implementations of one thing,
a bounded queue, and after any calls each of them is in the state of that queue
that its history says.

What is put together here for each of the three: what went in came out in the
same order or is still there; the answer to every call, and what is there after
it, are those of `offer` and `accept` on the list; a call that fails changes
nothing at all; and the flags these answers depend on are set by closing or
revoking and by nothing else.

## Theorems

* `queues_are_fifos`: All three, after any calls.
-/

namespace Norx

namespace Ipc

open Fifo Process

/-- A channel after any calls to a new one. -/
structure ChannelFifo (calls : List ChannelCall) (c : Channel) : Prop where
  /-- What was received is what was sent, up to what is still there. -/
  conserved : Conserved channelCapacity
    (trace Channel.step Channel.transfer Channel.new calls) c.contents
  small : ∀ message ∈ c.contents, message.length ≤ maxMessage
  pending : c.pending = c.contents.length
  failed : ∀ call e, c.error call = some e → c.step call = c
  send : ∀ bytes, ((Channel.send bytes c).1, (Channel.send bytes c).2.contents)
    = offer channelCapacity .full (c.sendRefusal bytes) bytes c.contents
  sendBlocking : ∀ waiter bytes,
    ((Channel.sendBlocking waiter bytes c).1.map WaitResult.toOption,
        (Channel.sendBlocking waiter bytes c).2.contents)
      = orWait .full (WaitQueue.enqueue waiter c.sendWaiters).1
          (offer channelCapacity .full (c.sendRefusal bytes) bytes c.contents)
  receive : ∀ output,
    ((Channel.receive output c).1.map delivered, (Channel.receive output c).2.contents)
      = accept c.whenEmpty none (outputRefusal output) c.contents
  receiveBlocking : ∀ waiter output,
    ((Channel.receiveBlocking waiter output c).1.map (Option.map delivered),
        (Channel.receiveBlocking waiter output c).2.contents)
      = orWait .empty (WaitQueue.enqueue waiter c.receiveWaiters).1
          (accept c.whenEmpty none (outputRefusal output) c.contents)
  closing : c.closeSender.contents = c.contents ∧ c.closeReceiver.contents = c.contents
  /-- The end of the stream is reported when it has been reached. -/
  closed : ∀ output, c.error (.receive output) = some .closed ↔
    .closeSender ∈ calls ∧ c.contents = []
  senders : c.senders = 0 ↔ .closeSender ∈ calls
  receivers : c.receivers = 0 ↔ .closeReceiver ∈ calls

/-- A ring after any calls to a new one. -/
structure RingFifo (producer consumer : ProcessId) (calls : List RingCall) (r : SharedRing) :
    Prop where
  conserved : Conserved ringCapacity
    (trace SharedRing.step SharedRing.transfer (SharedRing.new producer consumer) calls) r.contents
  small : ∀ item ∈ r.contents, item.length ≤ maxMessage
  pending : r.pending = r.contents.length
  failed : ∀ call e, r.error call = some e → r.step call = r
  publish : ∀ caller bytes,
    ((SharedRing.publish caller bytes r).1, (SharedRing.publish caller bytes r).2.contents)
      = offer ringCapacity .full (r.publishRefusal caller bytes) bytes r.contents
  publishBlocking : ∀ caller waiter bytes,
    ((SharedRing.publishBlocking caller waiter bytes r).1.map WaitResult.toOption,
        (SharedRing.publishBlocking caller waiter bytes r).2.contents)
      = orWait .full (WaitQueue.enqueue waiter r.producerWaiters).1
          (offer ringCapacity .full (r.publishRefusal caller bytes) bytes r.contents)
  consume : ∀ caller output,
    ((SharedRing.consume caller output r).1.map delivered,
        (SharedRing.consume caller output r).2.contents)
      = accept .empty (r.consumeRefusal caller) (outputRefusal output) r.contents
  consumeBlocking : ∀ caller waiter output,
    ((SharedRing.consumeBlocking caller waiter output r).1.map (Option.map delivered),
        (SharedRing.consumeBlocking caller waiter output r).2.contents)
      = orWait .empty (WaitQueue.enqueue waiter r.consumerWaiters).1
          (accept .empty (r.consumeRefusal caller) (outputRefusal output) r.contents)
  parties : r.producer = producer ∧ r.consumer = consumer
  putBy : ∀ call bytes, r.transfer call = .put bytes → call.caller = producer
  takenBy : ∀ call bytes, r.transfer call = .take bytes → call.caller = consumer
  revoked : r.active = false ↔ ∃ call ∈ calls, SharedRing.Revokes producer consumer call
  /-- Once revoked, for good. -/
  dead : r.active = false → (∀ call, r.error call = some .revoked) ∧
    ∀ later, ∀ t ∈ trace SharedRing.step SharedRing.transfer r later, t = .rest

/-- An event queue after any calls to a new one. -/
structure EventFifo (calls : List EventCall) (q : EventQueue) : Prop where
  conserved : Conserved eventCapacity
    (trace EventQueue.step EventQueue.transfer EventQueue.new calls) q.contents
  failed : ∀ call e, q.error call = some e → q.step call = q
  push : ∀ event, ((EventQueue.push event q).1, (EventQueue.push event q).2.contents)
    = offer eventCapacity .full q.pushRefusal event q.contents
  pop : ((EventQueue.pop q).1, (EventQueue.pop q).2.contents)
    = accept q.whenEmpty none (fun _ => none) q.contents
  popBlocking : ∀ waiter,
    ((EventQueue.popBlocking waiter q).1, (EventQueue.popBlocking waiter q).2.contents)
      = orWait .empty (WaitQueue.enqueue waiter q.waiters).1
          (accept q.whenEmpty none (fun _ => none) q.contents)
  closing : q.close.contents = q.contents
  closed : q.error .pop = some .closed ↔ .close ∈ calls ∧ q.contents = []
  shut : q.closed = true ↔ .close ∈ calls

/-! ### The flags -/

theorem channel_senders (calls : List ChannelCall) :
    (Channel.after calls).senders = 0 ↔ .closeSender ∈ calls := by
  have hlatch := run_latch Channel.step Channel.WellFormed (fun c => c.senders = 0)
    (fun call => call = .closeSender)
    (fun c call h => ⟨Channel.wellFormed_step h call, (Channel.step_ends h call).1⟩) calls
    Channel.new Channel.wellFormed_new
  simpa [Channel.new, Channel.after] using hlatch

theorem channel_receivers (calls : List ChannelCall) :
    (Channel.after calls).receivers = 0 ↔ .closeReceiver ∈ calls := by
  have hlatch := run_latch Channel.step Channel.WellFormed (fun c => c.receivers = 0)
    (fun call => call = .closeReceiver)
    (fun c call h => ⟨Channel.wellFormed_step h call, (Channel.step_ends h call).2⟩) calls
    Channel.new Channel.wellFormed_new
  simpa [Channel.new, Channel.after] using hlatch

theorem event_closed (calls : List EventCall) :
    (EventQueue.after calls).closed = true ↔ .close ∈ calls := by
  have hlatch := run_latch EventQueue.step EventQueue.WellFormed (fun q => q.closed = true)
    (fun call => call = .close)
    (fun q call h => ⟨EventQueue.wellFormed_step h call, EventQueue.step_closed h call⟩) calls
    EventQueue.new EventQueue.wellFormed_new
  simpa [EventQueue.new, EventQueue.after] using hlatch

section Ring

variable (producer consumer : ProcessId) (calls : List RingCall)

/-- A well-formed ring of these two processes. -/
def RingOf (r : SharedRing) : Prop :=
  r.WellFormed ∧ r.producer = producer ∧ r.consumer = consumer

theorem ringOf_step {r : SharedRing} (h : RingOf producer consumer r) (call : RingCall) :
    RingOf producer consumer (r.step call) := by
  rcases h with ⟨hwell, hproducer, hconsumer⟩
  have hparties := SharedRing.step_parties hwell call
  exact ⟨SharedRing.wellFormed_step hwell call, hparties.1.trans hproducer,
    hparties.2.trans hconsumer⟩

theorem ringOf_new : RingOf producer consumer (SharedRing.new producer consumer) :=
  ⟨SharedRing.wellFormed_new producer consumer, rfl, rfl⟩

theorem ringOf_after : RingOf producer consumer (SharedRing.after producer consumer calls) :=
  run_keeps SharedRing.step (P := RingOf producer consumer)
    (fun _ call h => ringOf_step producer consumer h call) calls (ringOf_new producer consumer)

theorem ring_revoked :
    (SharedRing.after producer consumer calls).active = false ↔
      ∃ call ∈ calls, SharedRing.Revokes producer consumer call := by
  have hlatch := run_latch SharedRing.step (RingOf producer consumer) (fun r => r.active = false)
    (SharedRing.Revokes producer consumer) (fun r call h => ⟨ringOf_step producer consumer h call,
      by rw [SharedRing.step_active h.1, h.2.1, h.2.2]⟩) calls
    (SharedRing.new producer consumer) (ringOf_new producer consumer)
  simpa [SharedRing.new, SharedRing.after] using hlatch

end Ring

/-! ### All three -/

/-- A closed stream is reported only when everything in it has been taken. -/
theorem accept_error_iff {α : Type} {atEnd reported : Error} {unfit : α → Option Error}
    {q : List α} (hunfit : ∀ a, unfit a ≠ some reported) :
    errorOf (accept atEnd none unfit q).1 = some reported ↔ atEnd = reported ∧ q = [] := by
  cases q with
  | nil => simp [accept, errorOf]
  | cons a rest =>
    cases hfit : unfit a with
    | none => simp [accept, errorOf, hfit]
    | some e =>
      have hne : e ≠ reported := by
        intro heq
        rw [heq] at hfit
        exact hunfit a hfit
      simp [accept, errorOf, hfit, hne]

theorem channel_fifo (calls : List ChannelCall) : ChannelFifo calls (Channel.after calls) := by
  have h := Channel.wellFormed_after calls
  refine
    { conserved := Channel.conserved_after calls
      small := ?_
      pending := (Channel.contents_length h).symm
      failed := fun call _ he => Channel.step_error h call he
      send := fun bytes => Channel.send_refines bytes h
      sendBlocking := fun waiter bytes => Channel.sendBlocking_refines waiter bytes h
      receive := fun output => Channel.receive_refines output h
      receiveBlocking := fun waiter output => Channel.receiveBlocking_refines waiter output h
      closing := ⟨rfl, rfl⟩
      closed := ?_
      senders := channel_senders calls
      receivers := channel_receivers calls }
  · intro bytes hbytes
    rcases List.mem_map.mp hbytes with ⟨message, _, rfl⟩
    rw [message.payload_length]
    exact message.fits
  · intro output
    have hunfit (item : List UInt8) : outputRefusal output item ≠ some .closed := by
      unfold outputRefusal
      split_ifs
      · nofun
      · nofun
    have hanswer := congrArg Prod.fst (Channel.receive_refines output h)
    have hwhen : (Channel.after calls).whenEmpty = .closed ↔ .closeSender ∈ calls := by
      rw [← channel_senders, Channel.whenEmpty]
      split_ifs with hclosed
      · simp [hclosed]
      · simp [hclosed]
    rw [← hwhen, ← accept_error_iff hunfit, ← hanswer, errorOf_map]
    rfl

theorem ring_fifo (producer consumer : ProcessId) (calls : List RingCall) :
    RingFifo producer consumer calls (SharedRing.after producer consumer calls) := by
  rcases ringOf_after producer consumer calls with ⟨h, hproducer, hconsumer⟩
  refine
    { conserved := SharedRing.conserved_after producer consumer calls
      small := ?_
      pending := (SharedRing.contents_length _).symm
      failed := fun call _ he => SharedRing.step_error h call he
      publish := fun caller bytes => SharedRing.publish_refines caller bytes h
      publishBlocking := fun caller waiter bytes =>
        SharedRing.publishBlocking_refines caller waiter bytes h
      consume := fun caller output => SharedRing.consume_refines caller output h
      consumeBlocking := fun caller waiter output =>
        SharedRing.consumeBlocking_refines caller waiter output h
      parties := ⟨hproducer, hconsumer⟩
      putBy := fun call bytes hput => (SharedRing.put_caller h hput).trans hproducer
      takenBy := fun call bytes htake => (SharedRing.take_caller h htake).trans hconsumer
      revoked := ring_revoked producer consumer calls
      dead := fun hrevoked => ⟨SharedRing.inactive_error h hrevoked,
        SharedRing.inactive_transfers h hrevoked⟩ }
  intro item hitem
  rcases List.mem_map.mp hitem with ⟨i, _, rfl⟩
  rw [SharedRing.item, Slots.leading_length _ (h.fits _)]
  exact h.fits _

theorem event_fifo (calls : List EventCall) : EventFifo calls (EventQueue.after calls) := by
  have h := EventQueue.wellFormed_after calls
  refine
    { conserved := EventQueue.conserved_after calls
      failed := fun call _ he => EventQueue.step_error h call he
      push := fun event => EventQueue.push_refines event h
      pop := EventQueue.pop_refines h
      popBlocking := fun waiter => EventQueue.popBlocking_refines waiter h
      closing := rfl
      closed := ?_
      shut := event_closed calls }
  have hanswer := congrArg Prod.fst (EventQueue.pop_refines h)
  have hwhen : (EventQueue.after calls).whenEmpty = .closed ↔ .close ∈ calls := by
    rw [← event_closed, EventQueue.whenEmpty]
    split_ifs with hclosed
    · simp [hclosed]
    · simp [hclosed]
  have hunfit (_ : Event) : (none : Option Error) ≠ some .closed := by rintro ⟨⟩
  rw [← hwhen, ← accept_error_iff hunfit, ← hanswer]
  rfl

/-- After any calls, each of the three is the bounded queue its history
    says. -/
theorem queues_are_fifos :
    (∀ calls, ChannelFifo calls (Channel.after calls)) ∧
      (∀ producer consumer calls,
        RingFifo producer consumer calls (SharedRing.after producer consumer calls)) ∧
      (∀ calls, EventFifo calls (EventQueue.after calls)) :=
  ⟨channel_fifo, ring_fifo, event_fifo⟩

end Ipc

end Norx
