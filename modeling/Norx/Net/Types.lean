import Norx.Lib.Run

/-!
# Network Data Model

What the protocols of `net.rs` share: addresses and the errors of the stack. A
frame that is sent goes to the device, and the device's answer is given to the
model from outside.

## Main definitions

* `Ipv4Addr`, `StackError`: The types.
-/

namespace Norx

namespace Net

structure Ipv4Addr where
  a : UInt8
  b : UInt8
  c : UInt8
  d : UInt8
  deriving DecidableEq, Repr

def Ipv4Addr.zero : Ipv4Addr := ⟨0, 0, 0, 0⟩
def Ipv4Addr.broadcast : Ipv4Addr := ⟨255, 255, 255, 255⟩

inductive StackError where
  | unsupported
  | device
  | invalidAddress
  | invalidPacket
  | noRoute
  | wouldBlock
  | busy
  | payloadTooLarge
  | notConnected
  | protocol
  deriving DecidableEq, Repr

end Net

end Norx
