import Norx.Ipc.Types

/-!
# Message Channels

A `Channel` keeps up to four messages in a ring of optional cells, with a count
of open senders and one of open receivers, and a queue of waiters at either
end.

What the channel holds is the list of the payloads from its head on. On that list
`send` is `offer` and `receive` is `accept`, in every state in which no cell
between head and tail is empty (`send_refines`, `receive_refines`), and `Change` says
once for all of them what they can do to the channel.

## Main definitions

* `Channel`, `send`, `receive`, `sendBlocking`, `receiveBlocking`,
  `closeSender`, `closeReceiver`, `pending`: The channel.

## Theorems

* `step_cases`, `step_error`, `wellFormed_after`: What a call does, what one
  that fails does, and what every run keeps.
* `transfer_moves`, `conserved_after`: Each call moves the messages as its
  answer says, so what went in came out or is still there.
-/

namespace Norx

namespace Ipc

open Fallible Fifo

structure Channel where
  queue : Slots channelCapacity (Option Message)
  head : Nat
  tail : Nat
  length : Nat
  senders : Nat
  receivers : Nat
  sendWaiters : WaitQueue
  receiveWaiters : WaitQueue

/-- A program over a channel. -/
abbrev ChannelM := Fallible Channel Error

namespace Channel

def new : Channel :=
  { queue := Slots.replicate channelCapacity none, head := 0, tail := 0, length := 0, senders := 1,
    receivers := 1, sendWaiters := WaitQueue.new, receiveWaiters := WaitQueue.new }

/-- A message written at the tail, and a receiver woken. -/
def pushed (c : Channel) (message : Message) : Channel :=
  { c with queue := c.queue.set c.tail (some message)
           tail := (c.tail + 1) % channelCapacity
           length := c.length + 1
           receiveWaiters := c.receiveWaiters.wakeOne.2 }

/-- The message at the head cleared, and a sender woken. -/
def popped (c : Channel) : Channel :=
  { c with queue := c.queue.set c.head none
           head := (c.head + 1) % channelCapacity
           length := c.length - 1
           sendWaiters := c.sendWaiters.wakeOne.2 }

def send (bytes : List UInt8) : ChannelM Unit := do
  if (← read (·.receivers)) = 0 then fail .closed
  if hlarge : maxMessage < bytes.length then fail .tooLarge
  else
    if (← read (·.length)) = channelCapacity then fail .full
    modify (·.pushed (Message.copyOf bytes (Nat.not_lt.mp hlarge)))

def receive (output : List UInt8) : ChannelM (Nat × List UInt8) := do
  if (← read (·.length)) = 0 then
    if (← read (·.senders)) = 0 then fail .closed else fail .empty
  let message ← lookup .empty (fun c => c.queue.get c.head)
  if output.length < message.length then fail .bufferTooSmall
  modify popped
  return (message.length, overwrite output message.payload)

def enqueueSender (waiter : UInt32) : ChannelM Unit :=
  within sendWaiters (fun c q => { c with sendWaiters := q }) (WaitQueue.enqueue waiter)

def enqueueReceiver (waiter : UInt32) : ChannelM Unit :=
  within receiveWaiters (fun c q => { c with receiveWaiters := q }) (WaitQueue.enqueue waiter)

def sendBlocking (waiter : UInt32) (bytes : List UInt8) : ChannelM WaitResult :=
  waitResult (orEnqueue .full (enqueueSender waiter) (send bytes))

def receiveBlocking (waiter : UInt32) (output : List UInt8) :
    ChannelM (Option (Nat × List UInt8)) :=
  orEnqueue .empty (enqueueReceiver waiter) (receive output)

def closeSender (c : Channel) : Channel :=
  { c with senders := 0, receiveWaiters := c.receiveWaiters.wakeOne.2 }

def closeReceiver (c : Channel) : Channel :=
  { c with receivers := 0, sendWaiters := c.sendWaiters.wakeOne.2 }

def pending (c : Channel) : Nat := c.length

/-! ### The messages held -/

/-- The messages held, oldest first. -/
def contents (c : Channel) : List (List UInt8) :=
  (items channelCapacity c.queue.get c.head c.length).map Message.payload

/-- The positions belong together, and no cell between them is empty. -/
def WellFormed (c : Channel) : Prop :=
  Occupied channelCapacity c.queue.get c.head c.tail c.length

theorem wellFormed_new : WellFormed new := Occupied.empty (by decide) _

section Cells

variable {c : Channel} (h : WellFormed c)

include h

theorem contents_length : c.contents.length = c.length := by
  unfold contents
  rw [List.length_map, h.items_length]

theorem occupied_pushed (hroom : c.length ≠ channelCapacity) (message : Message) :
    WellFormed (c.pushed message) ∧
      (c.pushed message).contents = c.contents ++ [message.payload] := by
  have hpush := h.push (Nat.lt_of_le_of_ne h.ring.length_le hroom)
    (fun _ hj => Slots.get_set_other c.queue (some message) hj)
    (Slots.get_set_self c.queue (some message) h.ring.tail_lt)
  refine ⟨hpush.1, (congrArg (List.map Message.payload) hpush.2).trans ?_⟩
  rw [List.map_append]
  rfl

theorem occupied_popped (hsome : c.length ≠ 0) {message : Message}
    (hfirst : c.queue.get c.head = some message) :
    WellFormed c.popped ∧ c.contents = message.payload :: c.popped.contents := by
  have hpop := h.pop hsome (fun _ hj => Slots.get_set_other c.queue none hj) hfirst
  exact ⟨hpop.1, congrArg (List.map Message.payload) hpop.2⟩

end Cells

/-! ### The calls in full -/

/-- Why a message is turned away whatever room there is. -/
def sendRefusal (c : Channel) (bytes : List UInt8) : Option Error :=
  if c.receivers = 0 then some .closed
  else if maxMessage < bytes.length then some .tooLarge
  else none

/-- What is reported of a channel without messages. -/
def whenEmpty (c : Channel) : Error := if c.senders = 0 then .closed else .empty

theorem send_spec (bytes : List UInt8) (c : Channel) :
    wp (send bytes)
      (fun _ c' => c.sendRefusal bytes = none ∧ c.receivers ≠ 0 ∧ c.length ≠ channelCapacity ∧
        ∃ hfits, c' = c.pushed (Message.copyOf bytes hfits))
      (fun e c' => c' = c ∧ (c.sendRefusal bytes = some e ∨
        c.sendRefusal bytes = none ∧ c.receivers ≠ 0 ∧ c.length = channelCapacity ∧ e = .full))
      c := by
  simp only [send, wp_bind, wp_read, wp_ite, wp_dite, wp_fail, wp_modify, true_and, sendRefusal]
  refine ⟨fun hclosed => .inl (if_pos hclosed), fun hopen => ⟨fun hlarge => ?_, fun hsmall =>
    ⟨fun hfull => ?_, fun hroom => ?_⟩⟩⟩
  · rw [if_neg hopen, if_pos hlarge]
    exact .inl rfl
  · rw [if_neg hopen, if_neg hsmall]
    exact .inr ⟨rfl, hopen, hfull, trivial⟩
  · rw [if_neg hopen, if_neg hsmall]
    exact ⟨rfl, hopen, hroom, Nat.not_lt.mp hsmall, trivial⟩

variable {c : Channel}

theorem receive_spec (output : List UInt8) (h : WellFormed c) :
    wp (receive output)
      (fun reading c' => c.length ≠ 0 ∧ c' = c.popped ∧ ∃ message,
        c.queue.get c.head = some message ∧ outputRefusal output message.payload = none ∧
        delivered reading = message.payload)
      (fun e c' => c' = c ∧ (c.length = 0 ∧ e = c.whenEmpty ∨
        c.length ≠ 0 ∧ ∃ message, c.queue.get c.head = some message ∧
          outputRefusal output message.payload = some e ∧ e = .bufferTooSmall)) c := by
  simp only [receive, wp_bind, wp_read, wp_ite, wp_fail, wp_modify, wp_lookup, wp_pure, true_and,
    outputRefusal, Message.payload_length, whenEmpty]
  refine ⟨fun hnone => ⟨fun hsenders => ?_, fun hsenders => ?_⟩, fun hsome =>
    ⟨fun message hfirst => ⟨fun hsmall => ?_, fun hfits => ?_⟩, fun hfirst => ?_⟩⟩
  · exact .inl ⟨hnone, (if_pos hsenders).symm⟩
  · exact .inl ⟨hnone, (if_neg hsenders).symm⟩
  · exact .inr ⟨hsome, message, hfirst, if_pos hsmall, trivial⟩
  · exact ⟨hsome, message, hfirst, if_neg hfits, take_overwrite message.payload_length⟩
  · -- The cell at the head of a channel with messages is never empty.
    rcases h.first hsome with ⟨message, hused⟩
    rw [hfirst] at hused
    cases hused

/-- What a call that can fail does to a channel. -/
inductive Change (c : Channel) : Channel → Prop
  | same : Change c c
  | pushed (message : Message) (hopen : c.receivers ≠ 0) (hroom : c.length ≠ channelCapacity) :
      Change c (c.pushed message)
  | popped (hsome : c.length ≠ 0) : Change c c.popped
  | senderWaits (q : WaitQueue) (hopen : c.receivers ≠ 0) :
      Change c { c with sendWaiters := q }
  | receiverWaits (q : WaitQueue) (hopen : c.senders ≠ 0) :
      Change c { c with receiveWaiters := q }

theorem send_change (bytes : List UInt8) (c : Channel) :
    wp (send bytes) (fun _ c' => Change c c') (fun _ c' => c' = c) c := by
  refine wp_mono (send_spec bytes c) ?_ (fun _ _ h => h.1)
  rintro _ c' ⟨-, hopen, hroom, hfits, rfl⟩
  exact Change.pushed _ hopen hroom

theorem sendBlocking_change (waiter : UInt32) (bytes : List UInt8) (c : Channel) :
    wp (sendBlocking waiter bytes) (fun _ c' => Change c c') (fun _ c' => c' = c) c := by
  rw [sendBlocking, wp_waitResult]
  refine orEnqueue_change _ _ waiter rfl (wp_mono (send_spec bytes c) ?_ ?_)
  · rintro _ c' ⟨-, hopen, hroom, hfits, rfl⟩
    exact Change.pushed _ hopen hroom
  · rintro e c' ⟨rfl, hreason⟩
    refine ⟨rfl, fun hfull q => Change.senderWaits q ?_⟩
    -- Only a channel whose receiver is open is ever full to a sender.
    rcases hreason with hrefused | hfull
    · subst hfull
      unfold sendRefusal at hrefused
      split_ifs at hrefused
      all_goals cases hrefused
    · exact hfull.2.1

theorem receive_change (output : List UInt8) (h : WellFormed c) :
    wp (receive output) (fun _ c' => Change c c') (fun _ c' => c' = c) c := by
  refine wp_mono (receive_spec output h) ?_ (fun _ _ h => h.1)
  rintro _ c' ⟨hsome, rfl, -⟩
  exact Change.popped hsome

theorem receiveBlocking_change (waiter : UInt32) (output : List UInt8) (h : WellFormed c) :
    wp (receiveBlocking waiter output) (fun _ c' => Change c c') (fun _ c' => c' = c) c := by
  refine orEnqueue_change _ _ waiter rfl (wp_mono (receive_spec output h) ?_ ?_)
  · rintro _ c' ⟨hsome, rfl, -⟩
    exact Change.popped hsome
  · rintro e c' ⟨rfl, hreason⟩
    refine ⟨rfl, fun hempty q => Change.receiverWaits q ?_⟩
    rcases hreason with ⟨_, hwhy⟩ | ⟨_, _, _, _, hsmall⟩
    · intro hclosed
      rw [hempty, whenEmpty, if_pos hclosed] at hwhy
      cases hwhy
    · rw [hempty] at hsmall
      cases hsmall

/-! ### The calls on the list of messages -/

theorem send_refines (bytes : List UInt8) (h : WellFormed c) :
    ((send bytes c).1, (send bytes c).2.contents)
      = offer channelCapacity .full (c.sendRefusal bytes) bytes c.contents := by
  refine eq_of_wp contents (wp_mono (send_spec bytes c) ?_ ?_)
  · rintro _ c' ⟨haccepted, _, hroom, hfits, rfl⟩
    have hroom' : c.contents.length ≠ channelCapacity := by rwa [contents_length h]
    rw [haccepted, (occupied_pushed h hroom _).2, Message.payload_copyOf]
    simp only [offer, if_neg hroom']
  · rintro e c' ⟨rfl, hrefused | ⟨haccepted, _, hfull, rfl⟩⟩
    · rw [hrefused]
      rfl
    · have hfull' : c'.contents.length = channelCapacity := by rwa [contents_length h]
      rw [haccepted]
      simp only [offer, if_pos hfull']

theorem receive_refines (output : List UInt8) (h : WellFormed c) :
    ((receive output c).1.map delivered, (receive output c).2.contents)
      = accept c.whenEmpty none (outputRefusal output) c.contents := by
  refine refines_of_wp contents delivered (wp_mono (receive_spec output h) ?_ ?_)
  · rintro reading c' ⟨hsome, rfl, message, hfirst, hfits, hbytes⟩
    rw [(occupied_popped h hsome hfirst).2]
    simp only [accept, hfits, hbytes]
  · rintro e c' ⟨rfl, ⟨hnone, rfl⟩ | ⟨hsome, message, hfirst, hsmall, _⟩⟩
    · have hnil : c'.contents = [] := by
        rw [← List.length_eq_zero_iff, contents_length h, hnone]
      rw [hnil]
      rfl
    · rw [(occupied_popped h hsome hfirst).2]
      simp only [accept, hsmall]

theorem sendBlocking_refines (waiter : UInt32) (bytes : List UInt8) (h : WellFormed c) :
    ((sendBlocking waiter bytes c).1.map WaitResult.toOption,
        (sendBlocking waiter bytes c).2.contents)
      = orWait .full (WaitQueue.enqueue waiter c.sendWaiters).1
          (offer channelCapacity .full (c.sendRefusal bytes) bytes c.contents) := by
  have hwait := waitResult_apply (orEnqueue .full (enqueueSender waiter) (send bytes)) c
  have hplain := orEnqueue_eq .full (enqueueSender waiter) (send bytes) contents
    (fun _ => unchanged_of_wp (send_change bytes c)) rfl (send_refines bytes h)
  rw [← hwait] at hplain
  exact hplain

theorem receiveBlocking_refines (waiter : UInt32) (output : List UInt8) (h : WellFormed c) :
    ((receiveBlocking waiter output c).1.map (Option.map delivered),
        (receiveBlocking waiter output c).2.contents)
      = orWait .empty (WaitQueue.enqueue waiter c.receiveWaiters).1
          (accept c.whenEmpty none (outputRefusal output) c.contents) :=
  orEnqueue_refines .empty (enqueueReceiver waiter) (receive output) contents delivered
    (fun _ => unchanged_of_wp (receive_change output h)) rfl (receive_refines output h)

/-! ### Runs -/

end Channel

/-- A call to a channel. -/
inductive ChannelCall where
  | send (bytes : List UInt8)
  | receive (output : List UInt8)
  | sendBlocking (waiter : UInt32) (bytes : List UInt8)
  | receiveBlocking (waiter : UInt32) (output : List UInt8)
  | closeSender
  | closeReceiver

namespace Channel

/-- The channel a call leaves. -/
def step (c : Channel) : ChannelCall → Channel
  | .send bytes => (send bytes c).2
  | .receive output => (receive output c).2
  | .sendBlocking waiter bytes => (sendBlocking waiter bytes c).2
  | .receiveBlocking waiter output => (receiveBlocking waiter output c).2
  | .closeSender => c.closeSender
  | .closeReceiver => c.closeReceiver

/-- The error a call returns. -/
def error (c : Channel) : ChannelCall → Option Error
  | .send bytes => errorOf (send bytes c).1
  | .receive output => errorOf (receive output c).1
  | .sendBlocking waiter bytes => errorOf (sendBlocking waiter bytes c).1
  | .receiveBlocking waiter output => errorOf (receiveBlocking waiter output c).1
  | .closeSender | .closeReceiver => none

/-- What went in or came out, by the answer to the call. -/
def transfer (c : Channel) : ChannelCall → Transfer (List UInt8)
  | .send bytes => .of (fun _ => .put bytes) ((send bytes c).1.map some)
  | .receive output => .of .take (((receive output c).1.map delivered).map some)
  | .sendBlocking waiter bytes =>
    .of (fun _ => .put bytes) ((sendBlocking waiter bytes c).1.map WaitResult.toOption)
  | .receiveBlocking waiter output =>
    .of .take ((receiveBlocking waiter output c).1.map (Option.map delivered))
  | .closeSender | .closeReceiver => .rest

variable {c : Channel}

theorem change_of_wp {α : Type} {x : ChannelM α}
    (h : wp x (fun _ c' => Change c c') (fun _ c' => c' = c) c) : Change c (x c).2 := by
  refine of_wp (wp_mono h (fun _ _ hchange => hchange) ?_)
  rintro _ _ rfl
  exact Change.same

/-- Every call changes the channel, or closes one end of it. -/
theorem step_cases {P : Channel → Prop} (h : WellFormed c) (call : ChannelCall)
    (hchange : ∀ {c'}, Change c c' → P c') (hsender : P c.closeSender)
    (hreceiver : P c.closeReceiver) : P (c.step call) := by
  cases call with
  | send bytes => exact hchange (change_of_wp (send_change bytes c))
  | receive output => exact hchange (change_of_wp (receive_change output h))
  | sendBlocking waiter bytes => exact hchange (change_of_wp (sendBlocking_change waiter bytes c))
  | receiveBlocking waiter output =>
    exact hchange (change_of_wp (receiveBlocking_change waiter output h))
  | closeSender => exact hsender
  | closeReceiver => exact hreceiver

/-- A call that fails leaves the channel as it was. -/
theorem step_error (h : WellFormed c) (call : ChannelCall) {e : Error} (he : c.error call = some e) :
    c.step call = c := by
  cases call with
  | send bytes => exact unchanged_of_wp (send_change bytes c) (errorOf_eq_some.mp he)
  | receive output => exact unchanged_of_wp (receive_change output h) (errorOf_eq_some.mp he)
  | sendBlocking waiter bytes =>
    exact unchanged_of_wp (sendBlocking_change waiter bytes c) (errorOf_eq_some.mp he)
  | receiveBlocking waiter output =>
    exact unchanged_of_wp (receiveBlocking_change waiter output h) (errorOf_eq_some.mp he)
  | closeSender => cases he
  | closeReceiver => cases he

theorem wellFormed_change {c' : Channel} (h : WellFormed c) (hchange : Change c c') :
    WellFormed c' := by
  cases hchange with
  | same => exact h
  | pushed message _ hroom => exact (occupied_pushed h hroom message).1
  | popped hsome =>
    rcases h.first hsome with ⟨message, hfirst⟩
    exact (occupied_popped h hsome hfirst).1
  | senderWaits | receiverWaits => exact h

theorem wellFormed_step (h : WellFormed c) (call : ChannelCall) :
    WellFormed (c.step call) :=
  step_cases h call (wellFormed_change h) h h

/-- Only closing an end closes it. -/
theorem change_ends {c' : Channel} (hchange : Change c c') :
    c'.senders = c.senders ∧ c'.receivers = c.receivers := by
  cases hchange with
  | same | pushed | popped | senderWaits | receiverWaits => exact ⟨rfl, rfl⟩

theorem step_ends (h : WellFormed c) (call : ChannelCall) :
    ((c.step call).senders = 0 ↔ c.senders = 0 ∨ call = .closeSender) ∧
      ((c.step call).receivers = 0 ↔ c.receivers = 0 ∨ call = .closeReceiver) := by
  have hprogram {c' : Channel} (hchange : Change c c') (hs : call ≠ .closeSender)
      (hr : call ≠ .closeReceiver) :
      (c'.senders = 0 ↔ c.senders = 0 ∨ call = .closeSender) ∧
        (c'.receivers = 0 ↔ c.receivers = 0 ∨ call = .closeReceiver) := by
    rw [(change_ends hchange).1, (change_ends hchange).2]
    simp [hs, hr]
  cases call with
  | send bytes => exact hprogram (change_of_wp (send_change bytes c)) nofun nofun
  | receive output => exact hprogram (change_of_wp (receive_change output h)) nofun nofun
  | sendBlocking waiter bytes =>
    exact hprogram (change_of_wp (sendBlocking_change waiter bytes c)) nofun nofun
  | receiveBlocking waiter output =>
    exact hprogram (change_of_wp (receiveBlocking_change waiter output h)) nofun nofun
  | closeSender => simp [step, closeSender]
  | closeReceiver => simp [step, closeReceiver]

/-- The channel after any calls to a new one. -/
def after (calls : List ChannelCall) : Channel := run step new calls

theorem wellFormed_after (calls : List ChannelCall) : WellFormed (after calls) :=
  run_keeps step (P := WellFormed) (fun _ call h => wellFormed_step h call) calls wellFormed_new

/-- Each call moves the messages as its answer says. -/
theorem transfer_moves (h : WellFormed c) (call : ChannelCall) :
    (c.transfer call).Moves channelCapacity c.contents (c.step call).contents := by
  have hlength : c.contents.length ≤ channelCapacity := by
    rw [contents_length h]
    exact h.ring.length_le
  cases call with
  | send bytes => exact offer_moves (send_refines bytes h) hlength
  | receive output => exact accept_moves (receive_refines output h)
  | sendBlocking waiter bytes =>
    exact orWait_moves (sendBlocking_refines waiter bytes h) (offer_moves rfl hlength)
  | receiveBlocking waiter output =>
    exact orWait_moves (receiveBlocking_refines waiter output h) (accept_moves rfl)
  | closeSender => exact rfl
  | closeReceiver => exact rfl

theorem conserved_after (calls : List ChannelCall) :
    Conserved channelCapacity (trace step transfer new calls) (after calls).contents :=
  transfers_conserved step transfer contents WellFormed
    (fun _ call h => ⟨wellFormed_step h call, transfer_moves h call⟩)
    wellFormed_new rfl calls

end Channel

end Ipc

end Norx
