import Norx.Lib.Bytes
import Norx.Lib.Checked
import Norx.Lib.Run
import Norx.Lib.Slots

/-!
# The Block Request Queue

The request queue of `drivers/block.rs`. A request goes into the lowest free slot,
`poll` carries out what is queued from the bottom slot up, and `wait` polls until
its own request is complete and gives the slot back.

The disk and the callers' memory are two stores, since no buffer overlaps the
disk. The device also keeps the requests it carried out, which the source does
not; nothing reads that list. The partition table, the cache mode and the
statistics beside the counters are left out.

`World` runs the queue beside a device that carries out each request when it is
accepted. A caller may wait for an id once, and it cannot write to a buffer it has
lent to a request.

## Main definitions

* `submit`, `poll`, `wait`: The operations of the queue.
* `World`, `World.step`, `Permitted`: The queue beside the device it stands for.
-/

namespace Norx

namespace Block

def sectorSize : Nat := 512
def ramdiskSectors : Nat := 32
def dataSectors : Nat := ramdiskSectors
def queueDepth : Nat := 8
def requestTimeoutPolls : Nat := 64

inductive Error where
  | notReady
  | invalidRequest
  | outOfRange
  | readOnly
  | busy
  | timeout
  | unsupported
  deriving DecidableEq, Repr

inductive Operation where
  | read
  | write
  deriving DecidableEq, Repr

inductive RequestState where
  | free
  | queued
  | complete
  deriving DecidableEq, Repr

structure Request where
  state : RequestState
  operation : Operation
  lba : UInt64
  length : Nat
  buffer : Nat
  deriving DecidableEq, Repr

def Request.empty : Request :=
  { state := .free, operation := .read, lba := 0, length := 0, buffer := 0 }

instance : Inhabited Request := ⟨Request.empty⟩

/-- Where on the disk the request begins. -/
def Request.start (request : Request) : Nat := request.lba.toNat * sectorSize

/-- The disk, the callers' memory and the requests carried out. -/
structure Device where
  disk : Store
  memory : Store
  executed : List Request

/-- The statics of the driver. -/
structure State where
  device : Device
  queue : Slots queueDepth Request
  ready : Bool
  readOnly : Bool
  completed : UInt64
  timeouts : UInt64

def saturatingSucc (count : UInt64) : UInt64 := if count = 0 - 1 then count else count + 1

def submit (operation : Operation) (lba : UInt64) (buffer length : Nat) (b : State) :
    Except Error Nat × State :=
  if b.ready = false then (.error .notReady, b)
  else if length = 0 ∨ length % sectorSize ≠ 0 ∨ buffer = 0 then (.error .invalidRequest, b)
  else if operation = .write ∧ b.readOnly = true then (.error .readOnly, b)
  -- a sum that overflows is out of range too
  else if (Usize.checkedAdd lba.toNat (length / sectorSize)).all (dataSectors < ·) then
    (.error .outOfRange, b)
  else match b.queue.position (·.state = .free) with
    | none => (.error .busy, b)
    | some index =>
      let request := { state := .queued, operation, lba, length, buffer }
      (.ok index, { b with queue := b.queue.set index request })

def process (device : Device) (request : Request) : Device :=
  let executed := device.executed ++ [request]
  match request.operation with
  | .read =>
    let sectors := device.disk.read request.start request.length
    { device with memory := device.memory.write request.buffer sectors, executed }
  | .write =>
    let bytes := device.memory.read request.buffer request.length
    { device with disk := device.disk.write request.start bytes, executed }

/-- One turn of the loop of `poll`. -/
def pollSlot (b : State) (index : Nat) : State :=
  let request := b.queue.get index
  if request.state ≠ .queued then b
  else { b with
    device := process b.device request
    queue := b.queue.set index { request with state := .complete }
    completed := saturatingSucc b.completed }

def poll (b : State) : State := (List.range queueDepth).foldl pollSlot b

/-- The loop of `wait`, with the turns it has left. -/
def waitTurns (index : Nat) : Nat → State → Except Error Nat × State
  | 0, b => (.error .timeout, { b with
      queue := b.queue.set index .empty, timeouts := saturatingSucc b.timeouts })
  | turns + 1, b =>
    let b := poll b
    match (b.queue.get index).state with
    | .complete => (.ok (b.queue.get index).length, { b with queue := b.queue.set index .empty })
    | .free => (.error .invalidRequest, b)
    | .queued => waitTurns index turns b

def wait (index : Nat) (b : State) : Except Error Nat × State :=
  if queueDepth ≤ index then (.error .invalidRequest, b)
  else waitTurns index requestTimeoutPolls b

/-! ### The queue beside a device without one -/

/-- A byte of the callers' memory is written. -/
def Device.store (device : Device) (address : Nat) (byte : UInt8) : Device :=
  { device with memory := device.memory.write address [byte] }

/-- The queue, the device that carries out a request when it is accepted, the
    requests accepted so far and those of them not yet waited for, with their ids. -/
structure World where
  block : State
  direct : Device
  accepted : List Request
  held : List (Nat × Request)

def World.start (b : State) : World :=
  { block := b, direct := b.device, accepted := [], held := [] }

inductive Call where
  | submitRead (lba : UInt64) (buffer length : Nat)
  | submitWrite (lba : UInt64) (buffer length : Nat)
  | poll
  | wait (index : Nat)
  | setReadOnly (readOnly : Bool)
  | store (address : Nat) (byte : UInt8)
  deriving Repr

def World.submit (w : World) (operation : Operation) (lba : UInt64) (buffer length : Nat) :
    World :=
  match Block.submit operation lba buffer length w.block with
  | (.error _, b) => { w with block := b }
  | (.ok index, b) =>
    let request := b.queue.get index
    { block := b
      direct := process w.direct request
      accepted := w.accepted ++ [request]
      held := (index, request) :: w.held }

def World.step (w : World) : Call → World
  | .submitRead lba buffer length => w.submit .read lba buffer length
  | .submitWrite lba buffer length => w.submit .write lba buffer length
  | .poll => { w with block := Block.poll w.block }
  | .wait index =>
    { w with block := (Block.wait index w.block).2, held := w.held.filter (·.1 ≠ index) }
  | .setReadOnly readOnly => { w with block := { w.block with readOnly } }
  | .store address byte =>
    { w with
      block := { w.block with device := w.block.device.store address byte }
      direct := w.direct.store address byte }

/-- An id is waited for once, and a lent buffer is not written to. -/
def Permitted (w : World) : Call → Prop
  | .wait index => ∃ request, (index, request) ∈ w.held
  | .store address _ => ∀ p ∈ w.held, address < p.2.buffer ∨ p.2.buffer + p.2.length ≤ address
  | _ => True

end Block

end Norx
