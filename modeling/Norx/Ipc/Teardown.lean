import Norx.Ipc.Queues

/-!
# Waiters at Teardown

Closing an end of a channel or an event queue wakes one waiter of the other
side, and revoking a ring wakes none. Nothing else ever will: the calls that
wake are the ones that closing makes impossible. So a waiter is left behind
exactly if there were more of them than the call wakes.

For a receiver it takes one more step to see it. With messages still in the
queue there is something left to wait for, so the queue is first emptied
(`drained_channel`, `drained_events`); no call on the way wakes a receiver.

## Theorems

* `drained_channel`, `drained_events`: Emptying a queue leaves the waiters.
* `closedSender_step`, `closedReceiver_step`, `closed_step`, `revoked_step`: With
  no waiter left, no later call adds one.
* `teardown_strands_iff`: When closing and revoking leave nobody behind.
-/

namespace Norx

namespace Ipc

open Fallible Fifo Process

namespace Channel

/-- A receiver waits for a message nobody can send. -/
def StrandedReceivers (c : Channel) : Prop :=
  c.contents = [] ∧ c.senders = 0 ∧ c.receiveWaiters.len ≠ 0

/-- A sender waits for room in a channel nobody receives from. -/
def StrandedSenders (c : Channel) : Prop := c.receivers = 0 ∧ c.sendWaiters.len ≠ 0

variable {c : Channel}

/-- A receiver with room for any message is given the first one. -/
theorem step_receive (h : WellFormed c) (hsome : c.length ≠ 0) :
    c.step (.receive (List.replicate maxMessage 0)) = c.popped := by
  refine of_wp (P := fun c' => c' = c.popped) (wp_mono (receive_spec _ h) ?_ ?_)
  · rintro _ c' ⟨_, hpopped, _⟩
    exact hpopped
  · rintro e c' ⟨_, ⟨hnone, _⟩ | ⟨_, message, _, hsmall, _⟩⟩
    · exact absurd hnone hsome
    · rw [outputRefusal, List.length_replicate, message.payload_length,
        if_neg (Nat.not_lt.mpr message.fits)] at hsmall
      cases hsmall

/-- Emptying a channel closes nothing and wakes no receiver. -/
theorem drained_channel (h : WellFormed c) : ∃ later,
    (run step c later).contents = [] ∧ (run step c later).senders = c.senders ∧
      (run step c later).receiveWaiters = c.receiveWaiters := by
  have hdrain := run_drain step (.receive (List.replicate maxMessage 0))
    (fun c' => WellFormed c' ∧ c'.senders = c.senders ∧ c'.receiveWaiters = c.receiveWaiters)
    length (fun c' hc' hsome => ?_) c ⟨h, rfl, rfl⟩
  · rcases hdrain with ⟨⟨hwell, hsame⟩, hzero⟩
    refine ⟨_, ?_, hsame⟩
    rw [← List.length_eq_zero_iff, contents_length hwell, hzero]
  · rcases hc' with ⟨hwell, hsame⟩
    have hwell' := wellFormed_step hwell (.receive (List.replicate maxMessage 0))
    rw [step_receive hwell hsome] at hwell' ⊢
    exact ⟨⟨hwell', hsame⟩, rfl⟩

/-- A channel with its sending side closed and no receiver waiting. -/
def SenderGone (c : Channel) : Prop :=
  WellFormed c ∧ c.senders = 0 ∧ c.receiveWaiters.len = 0

/-- A channel with its receiving side closed and no sender waiting. -/
def ReceiverGone (c : Channel) : Prop :=
  WellFormed c ∧ c.receivers = 0 ∧ c.sendWaiters.len = 0

theorem closedSender_step (h : SenderGone c) (call : ChannelCall) : SenderGone (c.step call) := by
  rcases h with ⟨hwell, hclosed, hnone⟩
  have hwoken : c.receiveWaiters.wakeOne.2.len = 0 := by rw [WaitQueue.len_wakeOne, hnone]
  refine ⟨wellFormed_step hwell call, ?_⟩
  refine step_cases (P := fun c' => c'.senders = 0 ∧ c'.receiveWaiters.len = 0) hwell call
    (fun hchange => ?_) ⟨rfl, hwoken⟩ ⟨hclosed, hnone⟩
  cases hchange with
  | same | popped | senderWaits => exact ⟨hclosed, hnone⟩
  | pushed => exact ⟨hclosed, hwoken⟩
  | receiverWaits q hopen => exact absurd hclosed hopen

theorem closedReceiver_step (h : ReceiverGone c) (call : ChannelCall) :
    ReceiverGone (c.step call) := by
  rcases h with ⟨hwell, hclosed, hnone⟩
  have hwoken : c.sendWaiters.wakeOne.2.len = 0 := by rw [WaitQueue.len_wakeOne, hnone]
  refine ⟨wellFormed_step hwell call, ?_⟩
  refine step_cases (P := fun c' => c'.receivers = 0 ∧ c'.sendWaiters.len = 0) hwell call
    (fun hchange => ?_) ⟨hclosed, hnone⟩ ⟨rfl, hwoken⟩
  cases hchange with
  | same | receiverWaits => exact ⟨hclosed, hnone⟩
  | popped => exact ⟨hclosed, hwoken⟩
  | pushed message hopen | senderWaits q hopen => exact absurd hclosed hopen

theorem closeSender_strands_iff (h : WellFormed c) :
    (∀ later, ¬ StrandedReceivers (run step c.closeSender later)) ↔
      c.receiveWaiters.len ≤ 1 := by
  have hwoken : c.closeSender.receiveWaiters.len = c.receiveWaiters.len - 1 :=
    WaitQueue.len_wakeOne c.receiveWaiters
  constructor
  · intro hnever
    by_contra hmany
    rcases drained_channel (c := c.closeSender) h with ⟨later, hempty, hsenders, hwaiters⟩
    refine hnever later ⟨hempty, hsenders, ?_⟩
    rw [hwaiters]
    omega
  · intro hfew later hstranded
    have hgone : SenderGone c.closeSender := ⟨h, rfl, by omega⟩
    have hend := run_keeps step (P := SenderGone) (fun _ call hc => closedSender_step hc call) later
      hgone
    exact hstranded.2.2 hend.2.2

theorem closeReceiver_strands_iff (h : WellFormed c) :
    (∀ later, ¬ StrandedSenders (run step c.closeReceiver later)) ↔ c.sendWaiters.len ≤ 1 := by
  have hwoken : c.closeReceiver.sendWaiters.len = c.sendWaiters.len - 1 :=
    WaitQueue.len_wakeOne c.sendWaiters
  constructor
  · intro hnever
    by_contra hmany
    refine hnever [] ⟨rfl, ?_⟩
    rw [run]
    omega
  · intro hfew later hstranded
    have hgone : ReceiverGone c.closeReceiver := ⟨h, rfl, by omega⟩
    have hend := run_keeps step (P := ReceiverGone) (fun _ call hc => closedReceiver_step hc call) later
      hgone
    exact hstranded.2 hend.2.2

end Channel

namespace EventQueue

/-- A waiter waits for an event nobody can push. -/
def Stranded (q : EventQueue) : Prop :=
  q.contents = [] ∧ q.closed = true ∧ q.waiters.len ≠ 0

variable {q : EventQueue}

theorem step_pop (h : WellFormed q) (hsome : q.length ≠ 0) : q.step .pop = q.popped := by
  refine of_wp (P := fun q' => q' = q.popped) (wp_mono (pop_spec h) ?_ ?_)
  · rintro _ q' ⟨_, hpopped, _⟩
    exact hpopped
  · rintro e q' ⟨_, hnone, _⟩
    exact absurd hnone hsome

/-- Emptying a queue does not open it and wakes nobody. -/
theorem drained_events (h : WellFormed q) : ∃ later,
    (run step q later).contents = [] ∧ (run step q later).closed = q.closed ∧
      (run step q later).waiters = q.waiters := by
  have hdrain := run_drain step .pop
    (fun q' => WellFormed q' ∧ q'.closed = q.closed ∧ q'.waiters = q.waiters)
    length (fun q' hq' hsome => ?_) q ⟨h, rfl, rfl⟩
  · rcases hdrain with ⟨⟨hwell, hsame⟩, hzero⟩
    refine ⟨_, ?_, hsame⟩
    rw [← List.length_eq_zero_iff, contents_length hwell, hzero]
  · rcases hq' with ⟨hwell, hsame⟩
    have hwell' := wellFormed_step hwell .pop
    rw [step_pop hwell hsome] at hwell' ⊢
    exact ⟨⟨hwell', hsame⟩, rfl⟩

/-- A closed queue on which nobody waits. -/
def Gone (q : EventQueue) : Prop := WellFormed q ∧ q.closed = true ∧ q.waiters.len = 0

theorem closed_step (h : Gone q) (call : EventCall) : Gone (q.step call) := by
  rcases h with ⟨hwell, hclosed, hnone⟩
  refine ⟨wellFormed_step hwell call, ?_⟩
  refine step_cases (P := fun q' => q'.closed = true ∧ q'.waiters.len = 0) hwell call
    (fun hchange => ?_) ⟨rfl, by rw [close, WaitQueue.len_wakeOne, hnone]⟩
  cases hchange with
  | same | popped => exact ⟨hclosed, hnone⟩
  | pushed event hopen | waits w hopen => exact absurd hclosed hopen

theorem close_strands_iff (h : WellFormed q) :
    (∀ later, ¬ Stranded (run step q.close later)) ↔ q.waiters.len ≤ 1 := by
  have hwoken : q.close.waiters.len = q.waiters.len - 1 := WaitQueue.len_wakeOne q.waiters
  constructor
  · intro hnever
    by_contra hmany
    rcases drained_events (q := q.close) h with ⟨later, hempty, hclosed, hwaiters⟩
    refine hnever later ⟨hempty, hclosed, ?_⟩
    rw [hwaiters]
    omega
  · intro hfew later hstranded
    have hgone : Gone q.close := ⟨h, rfl, by omega⟩
    have hend := run_keeps step (P := Gone) (fun _ call hq => closed_step hq call) later hgone
    exact hstranded.2.2 hend.2.2

end EventQueue

namespace SharedRing

/-- A process waits on a revoked ring. -/
def Stranded (r : SharedRing) : Prop :=
  r.active = false ∧ (r.producerWaiters.len ≠ 0 ∨ r.consumerWaiters.len ≠ 0)

variable {r : SharedRing}

/-- A revoked ring stays as it is. -/
theorem revoked_step (h : WellFormed r) (hrevoked : r.active = false) (call : RingCall) :
    r.step call = r :=
  step_error h call (inactive_error h hrevoked call)

theorem run_revoked (h : WellFormed r) (hrevoked : r.active = false) (calls : List RingCall) :
    run step r calls = r := by
  induction calls with
  | nil => rfl
  | cons call calls ih => rw [run, revoked_step h hrevoked call, ih]

/-- What a successful `revoke` leaves. -/
theorem step_revoke {caller : ProcessId} (h : r.error (.revoke caller) = none) :
    r.step (.revoke caller) = { r with active := false } := by
  change (revoke caller r).2 = _
  change errorOf (revoke caller r).1 = none at h
  rcases hrun : revoke caller r with ⟨e | _, r'⟩
  · rw [hrun] at h
    cases h
  · exact (wp_ok hrun (revoke_spec caller r)).2.2

theorem revoke_strands_iff (h : WellFormed r) :
    (∀ later, ¬ Stranded (run step { r with active := false } later)) ↔
      r.producerWaiters.len = 0 ∧ r.consumerWaiters.len = 0 := by
  have hwell : WellFormed { r with active := false } := ⟨h.ring, h.fits⟩
  have hfixed (later : List RingCall) :
      run step { r with active := false } later = { r with active := false } :=
    run_revoked hwell rfl later
  simp [hfixed, Stranded]

end SharedRing

/-- Closing leaves nobody behind exactly if at most one waits, revoking exactly
    if nobody does. -/
theorem teardown_strands_iff (calls : List ChannelCall) (events : List EventCall)
    (producer consumer caller : ProcessId) (accesses : List RingCall) :
    ((∀ later, ¬ (Channel.after (calls ++ .closeSender :: later)).StrandedReceivers) ↔
      (Channel.after calls).receiveWaiters.len ≤ 1) ∧
    ((∀ later, ¬ (Channel.after (calls ++ .closeReceiver :: later)).StrandedSenders) ↔
      (Channel.after calls).sendWaiters.len ≤ 1) ∧
    ((∀ later, ¬ (EventQueue.after (events ++ .close :: later)).Stranded) ↔
      (EventQueue.after events).waiters.len ≤ 1) ∧
    ((SharedRing.after producer consumer accesses).error (.revoke caller) = none →
      ((∀ later, ¬ (SharedRing.after producer consumer
          (accesses ++ .revoke caller :: later)).Stranded) ↔
        (SharedRing.after producer consumer accesses).producerWaiters.len = 0 ∧
          (SharedRing.after producer consumer accesses).consumerWaiters.len = 0)) := by
  refine ⟨?_, ?_, ?_, fun hrevoke => ?_⟩
  · simp only [Channel.after, run_append, run]
    exact Channel.closeSender_strands_iff (Channel.wellFormed_after calls)
  · simp only [Channel.after, run_append, run]
    exact Channel.closeReceiver_strands_iff (Channel.wellFormed_after calls)
  · simp only [EventQueue.after, run_append, run]
    exact EventQueue.close_strands_iff (EventQueue.wellFormed_after events)
  · have hstep := SharedRing.step_revoke hrevoke
    simp only [SharedRing.after, run_append, run] at hstep ⊢
    rw [hstep]
    exact SharedRing.revoke_strands_iff (SharedRing.wellFormed_after producer consumer accesses)

/-- Two receivers wait on an empty channel when its sender closes, two senders
    on a full one when its receiver closes, two callers on an empty event queue
    when it closes, and a consumer on a ring when it is revoked: one waiter is
    left behind each time. -/
theorem teardown_strands :
    (Channel.after [.receiveBlocking 1 [], .receiveBlocking 2 [],
      .closeSender]).StrandedReceivers ∧
    (Channel.after [.send [], .send [], .send [], .send [], .sendBlocking 1 [],
      .sendBlocking 2 [], .closeReceiver]).StrandedSenders ∧
    (EventQueue.after [.popBlocking 1, .popBlocking 2, .close]).Stranded ∧
    (SharedRing.after ⟨1⟩ ⟨2⟩ [.consumeBlocking ⟨2⟩ 1 [], .revoke ⟨1⟩]).Stranded := by
  refine ⟨⟨rfl, rfl, ?_⟩, ⟨rfl, ?_⟩, ⟨rfl, rfl, ?_⟩, rfl, .inr ?_⟩
  all_goals decide

end Ipc

end Norx
