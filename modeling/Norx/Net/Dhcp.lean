import Norx.Lib.Bytes
import Norx.Net.Types

/-!
# The DHCP Client

The client of `net.rs`: how a message is decoded, what the client does with it, and
its retries. Of the rest of the stack there is the check of the destination that a
datagram has to pass; no other frame changes a field of the client but
`next_identifier`, which nothing here depends on.

`configured` and the state say the same as long as no NAK comes to a client that is
bound: it makes the client idle and leaves it configured. And the client takes the
address of whatever acknowledgement comes while it is requesting, without a look at
what it asked for or whom it asked.

## Main definitions

* `decode`, `handleDhcp`, `pollDhcp`: The functions of the source.
* `Follows`: What a step of the client should do.
* `Expected`: The messages that do no harm.

## Theorems

* `lease_follows_iff`: A run is as it should be exactly if no other message comes.
* `lease_strays`: A NAK, and the acknowledgement of another server.
-/

namespace Norx

namespace Net

def dhcpRetryLimit : Nat := 3
def dhcpRetrySchedulerTicks : UInt64 := 100

inductive DhcpState where
  | idle
  | discovering
  | requesting
  | bound
  deriving DecidableEq, Repr

/-- The fields of the stack that the client uses. -/
structure Client where
  configured : Bool
  ip : Ipv4Addr
  subnet : Ipv4Addr
  gateway : Ipv4Addr
  dnsServer : Ipv4Addr
  dhcp : DhcpState
  dhcpXid : UInt32
  dhcpOffered : Ipv4Addr
  dhcpServer : Ipv4Addr
  dhcpSubnet : Ipv4Addr
  dhcpGateway : Ipv4Addr
  dhcpDns : Ipv4Addr
  dhcpRetries : Nat
  dhcpLastAction : UInt64
  nextIdentifier : UInt16

def Client.new (xid : UInt32) : Client :=
  { configured := false, ip := .zero, subnet := .zero, gateway := .zero, dnsServer := .zero,
    dhcp := .idle, dhcpXid := xid, dhcpOffered := .zero, dhcpServer := .zero, dhcpSubnet := .zero,
    dhcpGateway := .zero, dhcpDns := .zero, dhcpRetries := 0, dhcpLastAction := 0,
    nextIdentifier := 1 }

/-! ### Messages -/

/-- What a payload says. -/
structure Message where
  messageType : UInt8
  offered : Ipv4Addr
  subnet : Ipv4Addr
  gateway : Ipv4Addr
  dns : Ipv4Addr
  server : Ipv4Addr

/-- One option. -/
def Message.option (m : Message) (kind : UInt8) (value : List UInt8) : Message :=
  match kind, value with
  | 1, [a, b, c, d] => { m with subnet := ⟨a, b, c, d⟩ }
  | 3, a :: b :: c :: d :: _ => { m with gateway := ⟨a, b, c, d⟩ }
  | 6, a :: b :: c :: d :: _ => { m with dns := ⟨a, b, c, d⟩ }
  | 53, [messageType] => { m with messageType }
  | 54, [a, b, c, d] => { m with server := ⟨a, b, c, d⟩ }
  | _, _ => m

/-- The loop over the options. A turn takes a byte or more, so there are at most as
    many turns as bytes. -/
def readOptions : Nat → List UInt8 → Message → Except StackError Message
  | 0, _, m | _, [], m => .ok m
  | turns + 1, kind :: rest, m =>
    if kind = 0 then readOptions turns rest m
    else if kind = 255 then .ok m
    else match rest with
      | [] => .error .invalidPacket
      | length :: rest =>
        if rest.length < length.toNat then .error .invalidPacket
        else readOptions turns (rest.drop length.toNat)
          (m.option kind (rest.take length.toNat))

def ipv4From (payload : List UInt8) (offset : Nat) : Ipv4Addr :=
  ⟨payload.getD offset 0, payload.getD (offset + 1) 0, payload.getD (offset + 2) 0,
    payload.getD (offset + 3) 0⟩

/-- `handle_dhcp`, up to the type of the message. -/
def decode (xid : UInt32) (payload : List UInt8) : Except StackError Message :=
  if payload.length < 240 ∨ payload.head? ≠ some 2 ∨
      leNat ((payload.drop 4).take 4).reverse ≠ xid.toNat ∨
      (payload.drop 236).take 4 ≠ [99, 130, 83, 99] then .error .invalidPacket
  else readOptions payload.length (payload.drop 240)
    { messageType := 0, offered := ipv4From payload 16, subnet := .zero, gateway := .zero,
      dns := .zero, server := .zero }

/-! ### The client -/

/-- What a step is given from outside: the time, and what the device says to a frame. -/
structure Moment where
  now : UInt64
  sent : Except StackError Unit

/-- `send_dhcp_discover` and `send_dhcp_request`, which differ in the frame. -/
def sendDhcp (at_ : Moment) (c : Client) : Except StackError Unit × Client :=
  (at_.sent, { c with nextIdentifier := c.nextIdentifier + 1, dhcpLastAction := at_.now })

/-- `init`. -/
def Client.init (at_ : Moment) (xid : UInt32) : Client :=
  (sendDhcp at_ { Client.new xid with dhcp := .discovering }).2

/-- The end of `handle_dhcp`. -/
def takeMessage (at_ : Moment) (m : Message) (c : Client) : Except StackError Unit × Client :=
  if m.messageType = 2 ∧ c.dhcp = .discovering then
    sendDhcp at_ { c with
      dhcpOffered := m.offered, dhcpServer := m.server, dhcpSubnet := m.subnet,
      dhcpGateway := m.gateway, dhcpDns := m.dns, dhcp := .requesting, dhcpRetries := 0 }
  else if m.messageType = 5 ∧ c.dhcp = .requesting then
    (.ok (), { c with
      ip := m.offered, subnet := if m.subnet = .zero then ⟨255, 255, 255, 0⟩ else m.subnet,
      gateway := m.gateway, dnsServer := m.dns, configured := true, dhcp := .bound })
  else if m.messageType = 6 then (.error .protocol, { c with dhcp := .idle })
  else (.ok (), c)

def handleDhcp (at_ : Moment) (payload : List UInt8) (c : Client) :
    Except StackError Unit × Client :=
  match decode c.dhcpXid payload with
  | .error e => (.error e, c)
  | .ok m => takeMessage at_ m c

def pollDhcp (at_ : Moment) (schedulerTicks : UInt64) (c : Client) : Client :=
  if c.dhcp = .idle ∨ c.dhcp = .bound then c
  else if at_.now - c.dhcpLastAction < schedulerTicks * dhcpRetrySchedulerTicks then c
  else if dhcpRetryLimit ≤ c.dhcpRetries then { c with dhcp := .idle }
  else
    let (result, c) := sendDhcp at_ { c with dhcpRetries := c.dhcpRetries + 1 }
    match result with
    | .ok () => c
    | .error _ => { c with dhcpLastAction := at_.now }

/-! ### Runs -/

/-- A datagram from the port of the servers to that of the clients, or a poll. -/
inductive Input where
  | datagram (at_ : Moment) (destination : Ipv4Addr) (payload : List UInt8)
  | poll (at_ : Moment) (schedulerTicks : UInt64)

/-- `handle_frame` takes what is for everybody or for the stack, and any such
    datagram while the stack has no address. -/
def Client.accepts (c : Client) (destination : Ipv4Addr) : Prop :=
  destination = .broadcast ∨ destination = c.ip ∨ c.configured = false

instance (c : Client) (destination : Ipv4Addr) : Decidable (c.accepts destination) :=
  inferInstanceAs (Decidable (_ ∨ _))

def Client.step (c : Client) : Input → Client
  | .datagram at_ destination payload =>
    if c.accepts destination then (handleDhcp at_ payload c).2 else c
  | .poll at_ schedulerTicks => pollDhcp at_ schedulerTicks c

/-- The message that reaches the client. -/
def Client.message (c : Client) : Input → Option Message
  | .datagram _ destination payload =>
    if c.accepts destination then (decode c.dhcpXid payload).toOption else none
  | .poll .. => none

/-- The client is configured exactly if it is bound. -/
def Agrees (c : Client) : Prop := c.configured = true ↔ c.dhcp = .bound

/-- After the step the client is configured exactly if it is bound, and if it is now,
    then to the address it asked for and by the server it asked. -/
def Follows (c : Client) (input : Input) : Prop :=
  Agrees (c.step input) ∧ ((c.step input).dhcp = .bound → c.dhcp ≠ .bound →
    (c.step input).ip = c.dhcpOffered ∧ ∃ m, c.message input = some m ∧ m.server = c.dhcpServer)

/-- A NAK comes to a client that is not bound, and the acknowledgement that a client
    waits for is that of the offer. -/
def Expected (c : Client) (input : Input) : Prop :=
  ∀ m, c.message input = some m → (m.messageType = 6 → c.dhcp ≠ .bound) ∧
    (m.messageType = 5 → c.dhcp = .requesting →
      m.offered = c.dhcpOffered ∧ m.server = c.dhcpServer)

/-- Without a message the client at most gives up. -/
theorem step_cases (c : Client) (input : Input) :
    (∃ at_ m, c.message input = some m ∧ c.step input = (takeMessage at_ m c).2) ∨
      (c.message input = none ∧ (c.step input).configured = c.configured ∧
        ((c.step input).dhcp = c.dhcp ∨ (c.step input).dhcp = .idle ∧ c.dhcp ≠ .bound)) := by
  cases input with
  | datagram at_ destination payload =>
    simp only [Client.message, Client.step, handleDhcp]
    split_ifs with haccepts
    · cases decode c.dhcpXid payload with
      | error e => exact .inr ⟨rfl, rfl, .inl rfl⟩
      | ok m => exact .inl ⟨at_, m, rfl, rfl⟩
    · exact .inr ⟨rfl, rfl, .inl rfl⟩
  | poll at_ schedulerTicks =>
    refine .inr ⟨rfl, ?_⟩
    simp only [Client.step, pollDhcp, sendDhcp]
    grind

theorem follows_iff {c : Client} (h : Agrees c) (input : Input) :
    Follows c input ↔ Expected c input := by
  unfold Agrees at h
  unfold Follows Expected Agrees
  rcases step_cases c input with ⟨at_, m, hm, hstep⟩ | ⟨hm, hconfigured, hdhcp⟩
  · rw [hstep]
    unfold takeMessage sendDhcp
    grind
  · grind

theorem obeys_follows_iff {c : Client} (h : Agrees c) (inputs : List Input) :
    Obeys Client.step Follows c inputs ↔ Obeys Client.step Expected c inputs := by
  induction inputs generalizing c with
  | nil => exact Iff.rfl
  | cons input rest ih =>
    -- A step that is as it should be leaves a client from which the next one can be judged.
    rw [Obeys, Obeys, ← follows_iff h input]
    exact and_congr_right fun hfollows => ih hfollows.1

/-- From `init` on, every step is as it should be exactly if no message is
    unexpected. -/
theorem lease_follows_iff (at_ : Moment) (xid : UInt32) (inputs : List Input) :
    Obeys Client.step Follows (Client.init at_ xid) inputs ↔
      Obeys Client.step Expected (Client.init at_ xid) inputs :=
  obeys_follows_iff (by simp [Agrees, Client.init, Client.new, sendDhcp]) inputs

/-- A message of a server of the net to everybody. -/
def reply (messageType address server : UInt8) : Input :=
  .datagram ⟨0, .ok ()⟩ .broadcast ([2] ++ List.replicate 15 0 ++ [10, 0, 2, address] ++
    List.replicate 216 0 ++ [99, 130, 83, 99, 53, 1, messageType, 54, 4, 10, 0, 2, server, 255])

/-- A NAK after the acknowledgement, and an acknowledgement of another address by
    another server. -/
theorem lease_strays :
    let after := run Client.step (Client.init ⟨0, .ok ()⟩ 0)
    ((after [reply 2 15 2, reply 5 15 2, reply 6 15 2]).configured = true ∧
      (after [reply 2 15 2, reply 5 15 2, reply 6 15 2]).dhcp = .idle) ∧
    (after [reply 2 15 2]).dhcpOffered = ⟨10, 0, 2, 15⟩ ∧
    (after [reply 2 15 2, reply 5 66 3]).dhcp = .bound ∧
    (after [reply 2 15 2, reply 5 66 3]).ip = ⟨10, 0, 2, 66⟩ := by
  decide +kernel

end Net

end Norx
