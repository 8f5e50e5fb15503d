import Norx.Lib.Fallible
import Norx.Lib.Word

/-!
# Devices and Drivers

The device model of `drivers/framework.rs`. A device goes through the states of
an 18-edge machine, is bound to at most one driver, holds a few resources and
may be published. A driver is a set of callbacks on the device, any of which may
fail; a callback is any program over the device, since that is what the source
lets it be.

The source keeps the resources of a device and the devices of a bus in arrays
with a length beside them; here both are lists. Every operation also writes an
event into a trace ring that nothing but its own printer reads, and that ring is
not modelled. Neither are the names of buses, devices and drivers, nor the stage
of a driver.

## Main definitions

* `Device`, `Driver`, `DriverOps`, `Bus`: The records.
* `transition`, `addResource`, `releaseResources`, `bindDriver`, `unbindDriver`,
  `setPublished`, `unpublish`: What is done to a device.
* `discover`, `probe`, `publish`, `suspend`, `resume`, `quiesce`, `remove`, `revoke`,
  `hotUnplug`, `rebind`: The operations of the framework.
-/

namespace Norx

namespace Framework

open Fallible

def maxDevicesPerBus : Nat := 16
def maxResources : Nat := 8

abbrev BusId := UInt16
abbrev DeviceId := UInt16
abbrev DriverId := UInt16

inductive BusKind where
  | platform
  | pci
  | virtio
  | usb
  | ps2
  deriving DecidableEq, Repr

inductive Class where
  | display
  | serial
  | block
  | input
  | usbHost
  | audio
  | network
  deriving DecidableEq, Repr

inductive DeviceState where
  | discovered
  | probing
  | ready
  | suspended
  | deferred
  | unsupported
  | busy
  | quiescing
  | removed
  | failed
  deriving DecidableEq, Repr

inductive DriverError where
  | invalidState (expected actual : DeviceState)
  | busCapacity
  | resourceCapacity
  | resourceOwnerMismatch
  | driverAlreadyBound
  | driverNotBound
  | unsupported
  | deferred
  | busy
  | timeout
  | probeFailed
  | removeFailed
  | notMatched
  | notPublished
  | invalidResourceRange
  | invalidAlignment
  | invalidAddressRange
  | invalidDmaDirection
  | deviceAbsent
  | malformedDescriptor
  | dmaFailure
  | interruptStorm
  deriving DecidableEq, Repr

/-! ### Resources -/

inductive IrqKind where
  | legacy
  | msi
  | msiX
  | gic
  deriving DecidableEq, Repr

inductive DmaDirection where
  | toDevice
  | fromDevice
  | bidirectional
  deriving DecidableEq, Repr

structure Irq where
  kind : IrqKind
  line : UInt32
  owner : DeviceId
  deriving DecidableEq, Repr

structure DmaBuffer where
  physical : UInt64
  virtualAddress : UInt64
  length : UInt64
  alignment : UInt64
  direction : DmaDirection
  owner : DeviceId
  deriving DecidableEq, Repr

/-- The `is_aligned` of a physical and of a virtual address. -/
def isAligned (address alignment : UInt64) : Bool :=
  Word.isPowerOfTwo alignment.toNat && address % alignment == 0

def DmaBuffer.validate (buffer : DmaBuffer) : Except DriverError Unit := do
  if buffer.length = 0 ∨ Word.isPowerOfTwo buffer.alignment.toNat = false ∨
      isAligned buffer.physical buffer.alignment = false ∨
      isAligned buffer.virtualAddress buffer.alignment = false then
    throw .invalidAlignment
  if Word.checkedAdd buffer.physical buffer.length = none ∨
      Word.checkedAdd buffer.virtualAddress buffer.length = none then
    throw .invalidAddressRange

inductive Resource where
  | mmio (base size : UInt64) (owner : DeviceId)
  | pio (base size : UInt16) (owner : DeviceId)
  | irq (line : Irq)
  | dma (buffer : DmaBuffer)
  deriving DecidableEq, Repr

namespace Resource

def owner : Resource → DeviceId
  | mmio _ _ owner => owner
  | pio _ _ owner => owner
  | irq line => line.owner
  | dma buffer => buffer.owner

def validate : Resource → Except DriverError Unit
  | mmio base size _ =>
    if size = 0 ∨ Word.checkedAdd base size = none then .error .invalidResourceRange else .ok ()
  | pio base size _ =>
    if size = 0 ∨ 0x10000 < base.toNat + size.toNat then .error .invalidResourceRange
    else .ok ()
  | dma buffer => buffer.validate
  | irq _ => .ok ()

end Resource

/-! ### Devices -/

structure Device where
  id : DeviceId
  bus : BusId
  busKind : BusKind
  class_ : Class
  state : DeviceState
  resources : List Resource
  driver : Option DriverId
  published : Bool
  deriving DecidableEq, Repr

/-- A program over a device. -/
abbrev DeviceM := Fallible Device DriverError

/-- The edges of the state machine. -/
def DeviceState.permits : DeviceState → DeviceState → Bool
  | discovered, probing => true
  | probing, ready => true
  | ready, suspended => true
  | suspended, ready => true
  | probing, deferred => true
  | probing, unsupported => true
  | probing, busy => true
  | probing, failed => true
  | ready, quiescing => true
  | suspended, quiescing => true
  | quiescing, removed => true
  | quiescing, failed => true
  | failed, removed => true
  | failed, probing => true
  | removed, probing => true
  | deferred, probing => true
  | unsupported, probing => true
  | busy, probing => true
  | _, _ => false

/-- The states in which `release_resources` lets go. -/
def DeviceState.releases : DeviceState → Bool
  | failed | deferred | unsupported | busy | removed => true
  | _ => false

def Device.new (id : DeviceId) (bus : BusId) (busKind : BusKind) (class_ : Class) : Device :=
  { id, bus, busKind, class_, state := .discovered, resources := [], driver := none,
    published := false }

/-- Refuse a device in the wrong state. -/
def expect (expected : DeviceState) (allowed : DeviceState → Bool) : DeviceM Unit := do
  let actual ← read (·.state)
  if allowed actual = false then fail (.invalidState expected actual)

def transition (next : DeviceState) : DeviceM Unit := do
  expect next (·.permits next)
  modify ({ · with state := next })

def addResource (resource : Resource) : DeviceM Unit := do
  if resource.owner ≠ (← read (·.id)) then fail .resourceOwnerMismatch
  lift (fun _ => resource.validate)
  if (← read (·.resources.length)) = maxResources then fail .resourceCapacity
  modify (fun d => { d with resources := d.resources ++ [resource] })

def releaseResources : DeviceM Unit := do
  expect .removed (·.releases)
  modify ({ · with resources := [] })

def bindDriver (driver : DriverId) : DeviceM Unit := do
  if (← read (·.driver.isSome)) = true then fail .driverAlreadyBound
  expect .probing (· = .probing)
  modify ({ · with driver := some driver })

def unbindDriver : DeviceM DriverId := do
  let driver ← lookup .driverNotBound (·.driver)
  modify ({ · with driver := none })
  return driver

/-- `Device::publish`. -/
def setPublished : DeviceM Unit := do
  expect .ready (· = .ready)
  modify ({ · with published := true })

def unpublish : DeviceM Unit := do
  if (← read (·.published)) = false then fail .notPublished
  modify ({ · with published := false })

/-! ### Drivers and buses -/

abbrev DeviceCallback := DeviceM Unit

structure DriverOps where
  probe : DeviceCallback
  suspend : Option DeviceCallback
  resume : Option DeviceCallback
  quiesce : Option DeviceCallback
  remove : DeviceCallback

structure Driver where
  id : DriverId
  class_ : Class
  bus : BusKind
  ops : Option DriverOps

def Driver.matches (driver : Driver) (device : Device) : Bool :=
  decide (driver.class_ = device.class_) && decide (driver.bus = device.busKind)

structure Bus where
  id : BusId
  kind : BusKind
  devices : List DeviceId
  deriving DecidableEq, Repr

def Bus.new (id : BusId) (kind : BusKind) : Bus := { id, kind, devices := [] }

def Bus.attach (device : DeviceId) : Fallible Bus DriverError Unit := do
  if (← read (·.devices.length)) = maxDevicesPerBus then fail .busCapacity
  if (← read (fun bus => decide (device ∈ bus.devices))) = true then return ()
  modify (fun bus => { bus with devices := bus.devices ++ [device] })

/-! ### The operations -/

/-- The device is only read. -/
def discover (device : Device) : Fallible Bus DriverError Unit := do
  if (← read (fun bus => decide (device.bus ≠ bus.id ∨ device.busKind ≠ bus.kind))) = true then
    fail .notMatched
  if device.state ≠ .discovered then fail (.invalidState .discovered device.state)
  Bus.attach device.id

/-- The state a failed probe leaves the device in. -/
def DriverError.probeState : DriverError → DeviceState
  | deviceAbsent => .unsupported
  | deferred => .deferred
  | unsupported => .unsupported
  | busy => .busy
  | _ => .failed

def probe (driver : Driver) : DeviceM Unit := do
  if (← read (fun d => driver.matches d)) = false then fail .notMatched
  transition .probing
  match driver.ops with
  | none =>
    if (← succeeds (transition .unsupported)) = false then
      fail (.invalidState .unsupported (← read (·.state)))
    let _ ← attempt releaseResources
    fail .unsupported
  | some ops =>
    match (← attempt ops.probe) with
    | .error error =>
      transition error.probeState
      let _ ← attempt releaseResources
      fail error
    | .ok _ =>
      match (← attempt (bindDriver driver.id)) with
      | .error error =>
        let _ ← attempt (transition .failed)
        let _ ← attempt releaseResources
        fail error
      | .ok _ => transition .ready

def publish : DeviceM Unit := setPublished

/-- The driver must be the one the device is bound to. -/
def boundTo (driver : Driver) : DeviceM Unit := do
  if (← read (·.driver)) ≠ some driver.id then fail .driverNotBound

/-- What `suspend` and `resume` are: a callback the driver may not have, between
    two states. -/
def switchPower (driver : Driver) (before after : DeviceState)
    (callback : DriverOps → Option DeviceCallback) : DeviceM Unit := do
  boundTo driver
  expect before (· = before)
  let ops ← lookup .unsupported (fun _ => driver.ops)
  let callback ← lookup .unsupported (fun _ => callback ops)
  callback
  transition after

def suspend (driver : Driver) : DeviceM Unit := switchPower driver .ready .suspended (·.suspend)
def resume (driver : Driver) : DeviceM Unit := switchPower driver .suspended .ready (·.resume)

def quiesce (driver : Driver) : DeviceM Unit := do
  boundTo driver
  expect .ready (fun state => state = .ready ∨ state = .suspended)
  let ops ← lookup .unsupported (fun _ => driver.ops)
  ops.quiesce.getD (pure ())
  transition .quiescing

/-- The middle of `remove` and of `revoke`: off the list of published devices,
    and off its driver. -/
def letGo : DeviceM Unit := do
  if (← read (·.published)) = true then unpublish
  let _ ← unbindDriver

def remove (driver : Driver) : DeviceM Unit := do
  boundTo driver
  expect .quiescing (· = .quiescing)
  let ops ← lookup .unsupported (fun _ => driver.ops)
  match (← attempt ops.remove) with
  | .error error =>
    let _ ← attempt (transition .failed)
    fail error
  | .ok _ =>
    letGo
    transition .removed
    releaseResources

def revoke (driver : Driver) : DeviceM Unit := do
  boundTo driver
  expect .quiescing (fun state => state = .quiescing ∨ state = .failed)
  letGo
  if (← read (·.state)) ≠ .removed then transition .removed
  releaseResources

def hotUnplug (driver : Driver) : DeviceM Unit := do
  quiesce driver
  remove driver

def rebind (oldDriver newDriver : Driver) : DeviceM Unit := do
  boundTo oldDriver
  quiesce oldDriver
  remove oldDriver
  probe newDriver

end Framework

end Norx
