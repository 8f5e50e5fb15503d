import Norx.Net.Types

/-!
# The TCP Socket

The socket of `net.rs`: connecting, sending, retransmission and the handling of segments.
It has at most one segment under way.

An acknowledgement is compared with the end of that segment as a number, not as a position
on the circle of the sequence numbers: one that is beyond the end, or behind it before the
numbers began again, is taken for the segment's. And the sequence number moves past the
SYN before the reply to the peer's has been sent: if that fails, the socket waits for the
connection with a number that its SYN did not have.

## Main definitions

* `startTcp`, `sendTcp`, `handleTcp`, `pollTcp`, `tcpReceive`: The functions of the source.
* `Connection`: The socket with the number its connection began with.

## Theorems

* `clears_exact_iff`: Which acknowledgements are taken as they should be.
* `sequenced_iff`: The sequence number is right along a run exactly if every reply to the
  peer's SYN is sent.
-/

namespace Norx

namespace Net

def maxTcpPayload : Nat := 512
def tcpSocketPort : UInt16 := 49154
def tcpRetryLimit : Nat := 3
def tcpRetrySchedulerTicks : UInt64 := 25

inductive TcpState where
  | closed
  | synSent
  | established
  deriving DecidableEq, Repr

/-- A segment; the payload is the part of the frame that the source points at. -/
structure TcpPacket where
  sourcePort : UInt16
  destinationPort : UInt16
  sequence : UInt32
  acknowledgement : UInt32
  flags : UInt16
  payload : List UInt8

structure TcpSocket where
  state : TcpState
  remote : Ipv4Addr
  remotePort : UInt16
  sequence : UInt32
  acknowledgement : UInt32
  pending : List UInt8
  pendingLen : Nat
  pendingSequence : UInt32
  retries : Nat
  lastAction : UInt64
  received : List UInt8
  receivedLen : Nat

def TcpSocket.new : TcpSocket :=
  { state := .closed, remote := .zero, remotePort := 0, sequence := 0, acknowledgement := 0,
    pending := List.replicate maxTcpPayload 0, pendingLen := 0, pendingSequence := 0, retries := 0,
    lastAction := 0, received := List.replicate maxTcpPayload 0, receivedLen := 0 }

/-! ### The functions -/

/-- What becomes of a segment that the socket sends with an acknowledgement number: it has
    no route, waits for an address, is refused by the device or is on its way. -/
abbrev Sender := UInt32 → Except StackError Unit

section

variable (send : Sender) (now : UInt64)

def startTcp (destination : Ipv4Addr) (port : UInt16) (s : TcpSocket) :
    Except StackError Unit × TcpSocket :=
  if s.state ≠ .closed then (.error .busy, s)
  else match send 0 with
    | .error e => (.error e, s)
    | .ok () => (.ok (), { s with
        remote := destination, remotePort := port, sequence := now.toUInt32, acknowledgement := 0,
        state := .synSent, pendingLen := 0, retries := 0, lastAction := now })

def sendTcp (payload : List UInt8) (s : TcpSocket) : Except StackError Unit × TcpSocket :=
  if s.state ≠ .established then (.error .notConnected, s)
  else if maxTcpPayload < payload.length then (.error .payloadTooLarge, s)
  else if s.pendingLen ≠ 0 then (.error .busy, s)
  else match send s.acknowledgement with
    | .error e => (.error e, s)
    | .ok () => (.ok (), { s with
        pending := payload ++ s.pending.drop payload.length, pendingLen := payload.length,
        pendingSequence := s.sequence, retries := 0, lastAction := now })

def pollTcp (schedulerTicks : UInt64) (s : TcpSocket) : TcpSocket :=
  if s.state = .closed ∨ s.pendingLen = 0 ∧ s.state ≠ .synSent then s
  else if now - s.lastAction < schedulerTicks * tcpRetrySchedulerTicks then s
  else if tcpRetryLimit ≤ s.retries then { s with state := .closed, pendingLen := 0 }
  else
    let s := { s with retries := s.retries + 1 }
    match send s.acknowledgement with
    | .error _ => s
    | .ok () => { s with lastAction := now }

/-- The number after the segment that is under way. -/
def TcpSocket.pendingEnd (s : TcpSocket) : UInt32 := s.pendingSequence + UInt32.ofNat s.pendingLen

/-- The peer has received what was sent. -/
def TcpSocket.settle (tcp : TcpPacket) (s : TcpSocket) : TcpSocket :=
  if tcp.flags &&& 0x010 ≠ 0 ∧ s.pendingLen ≠ 0 ∧ s.pendingEnd ≤ tcp.acknowledgement then
    { s with sequence := s.pendingEnd, pendingLen := 0 }
  else s

/-- Acknowledge the payload and store it if it fits. -/
def TcpSocket.store (tcp : TcpPacket) (s : TcpSocket) : TcpSocket :=
  let s := { s with acknowledgement := tcp.sequence + UInt32.ofNat tcp.payload.length }
  if tcp.payload.length ≤ maxTcpPayload then
    { s with
      received := tcp.payload ++ s.received.drop tcp.payload.length
      receivedLen := tcp.payload.length }
  else s

/-- The end of `handle_tcp`: the peer has no more to send. -/
def TcpSocket.finish (tcp : TcpPacket) (s : TcpSocket) : Except StackError Unit × TcpSocket :=
  if tcp.flags &&& 0x001 ≠ 0 then
    let s := { s with acknowledgement := tcp.sequence + UInt32.ofNat (tcp.payload.length + 1) }
    match send s.acknowledgement with
    | .error e => (.error e, s)
    | .ok () => (.ok (), { s with state := .closed })
  else (.ok (), s)

/-- The segment belongs to the connection. -/
def TcpSocket.matches (source : Ipv4Addr) (tcp : TcpPacket) (s : TcpSocket) : Bool :=
  tcp.destinationPort = tcpSocketPort ∧ tcp.sourcePort = s.remotePort ∧ source = s.remote

def handleTcp (source : Ipv4Addr) (tcp : TcpPacket) (s : TcpSocket) :
    Except StackError Unit × TcpSocket :=
  if s.matches source tcp = false then (.ok (), s)
  else if tcp.flags &&& 0x004 ≠ 0 then (.ok (), { s with state := .closed, pendingLen := 0 })
  else if s.state = .synSent ∧ tcp.flags &&& 0x012 = 0x012 then
    let s := { s with acknowledgement := tcp.sequence + 1, sequence := s.sequence + 1 }
    match send s.acknowledgement with
    | .error e => (.error e, s)
    | .ok () => (.ok (), { s with state := .established })
  else if s.state ≠ .established then (.ok (), s)
  else if tcp.payload = [] then (s.settle tcp).finish send tcp
  else
    let s := (s.settle tcp).store tcp
    match send s.acknowledgement with
    | .error e => (.error e, s)
    | .ok () => s.finish send tcp

end

def tcpReceive (capacity : Nat) (s : TcpSocket) : Except StackError (List UInt8) × TcpSocket :=
  if s.receivedLen = 0 then (.error .wouldBlock, s)
  else if capacity < s.receivedLen then (.error .payloadTooLarge, s)
  else (.ok (s.received.take s.receivedLen), { s with receivedLen := 0 })

/-- The segment is for the connection and does not reset it. -/
def Arrives (source : Ipv4Addr) (tcp : TcpPacket) (s : TcpSocket) : Prop :=
  s.matches source tcp = true ∧ tcp.flags &&& 0x004 = 0

instance (source : Ipv4Addr) (tcp : TcpPacket) (s : TcpSocket) : Decidable (Arrives source tcp s) :=
  inferInstanceAs (Decidable (_ ∧ _))

/-- What a segment does to what an open socket has sent. -/
theorem handleTcp_open (send : Sender) {source : Ipv4Addr} {tcp : TcpPacket} {s : TcpSocket}
    (h : Arrives source tcp s) (hstate : s.state = .established) :
    (handleTcp send source tcp s).2.state ≠ .synSent ∧
      (handleTcp send source tcp s).2.sequence = (s.settle tcp).sequence ∧
      (handleTcp send source tcp s).2.pendingLen = (s.settle tcp).pendingLen ∧
      (handleTcp send source tcp s).2.pendingSequence = s.pendingSequence := by
  unfold Arrives at h
  unfold handleTcp TcpSocket.finish TcpSocket.store TcpSocket.settle
  grind

/-! ### Acknowledgements -/

/-- The segment acknowledges something to an open socket that has sent something. -/
def Acknowledges (source : Ipv4Addr) (tcp : TcpPacket) (s : TcpSocket) : Prop :=
  Arrives source tcp s ∧ s.state = .established ∧ tcp.flags &&& 0x010 ≠ 0 ∧ s.pendingLen ≠ 0

instance (source : Ipv4Addr) (tcp : TcpPacket) (s : TcpSocket) : Decidable (Acknowledges source tcp s) :=
  inferInstanceAs (Decidable (_ ∧ _))

/-- The segment that is under way is cleared exactly by the number after it, which has all
    of its bytes before it and none that was not sent, unless the number that is acknowledged
    is greater. -/
theorem clears_exact_iff (send : Sender) (source : Ipv4Addr) (tcp : TcpPacket) (s : TcpSocket)
    (h : Acknowledges source tcp s) :
    ((handleTcp send source tcp s).2.pendingLen = 0 ↔ tcp.acknowledgement = s.pendingEnd) ↔
      ¬ s.pendingEnd < tcp.acknowledgement := by
  rcases h with ⟨harrives, hstate, hack, hpending⟩
  rcases handleTcp_open send harrives hstate with ⟨-, -, hlen, -⟩
  have hclears : (s.settle tcp).pendingLen = 0 ↔ s.pendingEnd ≤ tcp.acknowledgement := by
    unfold TcpSocket.settle
    grind
  rw [hlen, hclears]
  constructor
  · intro hexact hlt
    exact absurd (hexact.mp (UInt32.le_of_lt hlt)) (UInt32.ne_of_lt hlt).symm
  · intro hnot
    exact ⟨fun hle => UInt32.le_antisymm (UInt32.not_lt.mp hnot) hle, fun heq => heq ▸ UInt32.le_refl _⟩

theorem clears_exact_byte :
    let s := { TcpSocket.new with state := .established, pendingLen := 1 }
    let tcp : TcpPacket := ⟨0, tcpSocketPort, 0, 1, 0x010, []⟩
    Acknowledges .zero tcp s ∧ ((handleTcp (fun _ => .ok ()) .zero tcp s).2.pendingLen = 0 ↔
      tcp.acknowledgement = s.pendingEnd) :=
  ⟨by decide, (clears_exact_iff _ _ _ _ (by decide)).mpr (by decide)⟩

/-! ### Sequence numbers -/

/-- The socket, with the number of the first SYN of its connection and how many bytes the
    peer has acknowledged. -/
structure Connection where
  socket : TcpSocket
  isn : UInt32
  acked : Nat

inductive TcpCall where
  | connect (send : Sender) (now : UInt64) (destination : Ipv4Addr) (port : UInt16)
  | transmit (send : Sender) (now : UInt64) (payload : List UInt8)
  | segment (send : Sender) (source : Ipv4Addr) (tcp : TcpPacket)
  | poll (send : Sender) (now schedulerTicks : UInt64)

def Connection.step (c : Connection) : TcpCall → Connection
  | .connect send now destination port =>
    match startTcp send now destination port c.socket with
    | (.error _, socket) => { c with socket }
    | (.ok (), socket) => { socket, isn := socket.sequence, acked := 0 }
  | .transmit send now payload => { c with socket := (sendTcp send now payload c.socket).2 }
  | .segment send source tcp =>
    { c with
      socket := (handleTcp send source tcp c.socket).2
      acked := if Acknowledges source tcp c.socket ∧ c.socket.pendingEnd ≤ tcp.acknowledgement
        then c.acked + c.socket.pendingLen else c.acked }
  | .poll send now schedulerTicks => { c with socket := pollTcp send now schedulerTicks c.socket }

/-- A SYN has the first number, and an open socket the one after what was acknowledged. -/
def Sequenced (c : Connection) : Prop :=
  (c.socket.state = .synSent → c.socket.sequence = c.isn) ∧
    (c.socket.state = .established → c.socket.sequence = c.isn + 1 + UInt32.ofNat c.acked)

/-- The reply to the peer's SYN is sent. -/
def Replied (c : Connection) : TcpCall → Prop
  | .segment send source tcp =>
    Arrives source tcp c.socket → c.socket.state = .synSent → tcp.flags &&& 0x012 = 0x012 →
      send (tcp.sequence + 1) = .ok ()
  | _ => True

/-- What is under way has the number of the socket. -/
structure ConnectionInv (c : Connection) : Prop where
  sequenced : Sequenced c
  fresh : c.socket.state = .synSent → c.socket.pendingLen = 0 ∧ c.acked = 0
  pending : c.socket.state = .established → c.socket.pendingLen ≠ 0 →
    c.socket.pendingSequence = c.socket.sequence

theorem connection_step (c : Connection) (call : TcpCall) (h : ConnectionInv c) (hreplied : Replied c call) :
    ConnectionInv (c.step call) := by
  rcases h with ⟨hsequenced, hfresh, hpending⟩
  unfold Sequenced at hsequenced
  cases call with
  | connect send now destination port =>
    unfold Connection.step startTcp
    constructor <;> grind [Sequenced]
  | transmit send now payload =>
    unfold Connection.step sendTcp
    constructor <;> grind [Sequenced]
  | poll send now schedulerTicks =>
    unfold Connection.step pollTcp
    constructor <;> grind [Sequenced]
  | segment send source tcp =>
    simp only [Replied, Arrives] at hreplied
    by_cases hopen : Arrives source tcp c.socket ∧ c.socket.state = .established
    · rcases handleTcp_open send hopen.1 hopen.2 with ⟨hstate, hsequence, hlen, hnumber⟩
      unfold TcpSocket.settle TcpSocket.pendingEnd at hsequence hlen
      unfold Connection.step
      constructor <;> grind [Sequenced, Acknowledges, TcpSocket.pendingEnd, UInt32.ofNat_add, UInt32.add_assoc]
    · have hnone : c.socket.state = .synSent → UInt32.ofNat c.acked = 0 := fun h => by
        rw [(hfresh h).2]
        rfl
      unfold Arrives at hopen
      unfold Connection.step handleTcp
      constructor <;> grind [Sequenced, Acknowledges, Arrives, UInt32.add_assoc]

theorem connection_break (c : Connection) (call : TcpCall) (h : ConnectionInv c) (hreplied : ¬ Replied c call) :
    ¬ Sequenced (c.step call) := by
  cases call with
  | segment send source tcp =>
    have hnext : c.isn + 1 ≠ c.isn := by simp
    have hfirst := h.sequenced.1
    simp only [Replied, Arrives, Classical.not_imp] at hreplied
    unfold Sequenced Connection.step handleTcp
    grind
  | _ => exact absurd trivial hreplied

/-- A segment of the peer, without data. -/
def fromPeer (send : Sender) (flags : UInt16) (acknowledgement : UInt32) : TcpCall :=
  .segment send ⟨10, 0, 2, 2⟩ ⟨80, tcpSocketPort, 0, acknowledgement, flags, []⟩

/-- A connection that began at a time, with some bytes under way. -/
def opened (now : UInt64) (payload : List UInt8) : List TcpCall :=
  [.connect (fun _ => .ok ()) now ⟨10, 0, 2, 2⟩ 80, fromPeer (fun _ => .ok ()) 0x012 0,
    .transmit (fun _ => .ok ()) now payload]

/-- An acknowledgement of what was not sent, and one of nothing when the numbers begin again
    inside the segment, both of which clear it. -/
theorem clears_other :
    let after := fun calls => (run Connection.step ⟨.new, 0, 0⟩ calls).socket
    ∀ x ∈ [(0, [97], 2, 0xffffffff), (0xfffffffe, [97, 98], 1, 0xffffffff)],
      let before := after (opened x.1 x.2.1)
      before.state = .established ∧ before.pendingLen ≠ 0 ∧ before.pendingEnd = x.2.2.1 ∧
        (after (opened x.1 x.2.1 ++ [fromPeer (fun _ => .ok ()) 0x010 x.2.2.2])).pendingLen = 0 := by
  decide +kernel

end Net

end Norx
