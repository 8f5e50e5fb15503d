import Norx.Framework.Device
import Norx.Process.Table

/-!
# The Service Supervisor

The supervisor of `service.rs` runs the driver of a device in a user process. It
keeps a table of at most eight services; a handle is a slot of the table in its
generation, as with processes.

An operation borrows the device, sometimes the process table, and writes the
record back at its end, so a program here is over the three of them together. The
device and the driver are arguments of every call: the supervisor only compares
their ids with what it has recorded, and the driver it is handed need not have the
callbacks of the one that was registered.

## Main definitions

* `ServiceRecord`, `Supervisor`, `ServiceHandle`: The table.
* `validateProcess`, `validateDevice`, `validateDeviceId`: The checks.
* `register`, `start`, `quiesce`, `stop`, `restart`, `recoverCrash`, `unregister`: The
  operations.
-/

namespace Norx

namespace Service

open Fallible Framework

def maxServices : Nat := 8
def maxRestarts : UInt8 := 3

inductive ServiceState where
  | registered
  | running
  | quiescing
  | stopped
  | failed
  deriving DecidableEq, Repr

inductive Error where
  | capacity
  | invalidHandle
  | generationExhausted
  | restartLimit
  | alreadyRegistered
  | invalidState
  | deviceMismatch
  | notUserThread
  | process (error : Process.Error)
  | driver (error : DriverError)
  deriving DecidableEq, Repr

structure ServiceHandle where
  slot : UInt8
  generation : UInt16
  deriving DecidableEq, Repr

structure ServiceRecord where
  device : DeviceId
  driver : Driver
  process : Process.ProcessId
  thread : Process.ThreadId
  state : ServiceState
  endpointActive : Bool
  restarts : UInt8

structure Supervisor where
  records : Slots maxServices (Option ServiceRecord)
  generations : Slots maxServices UInt16

/-- What an operation borrows. -/
structure Scene where
  supervisor : Supervisor
  device : Device
  processes : Process.ProcessTable

abbrev ServiceM := Fallible Scene Error

namespace Supervisor

def new : Supervisor :=
  { records := Slots.replicate _ none, generations := Slots.replicate _ 0 }

def put (s : Supervisor) (slot : Nat) (record : Option ServiceRecord) : Supervisor :=
  { s with records := s.records.set slot record }

def record (s : Supervisor) (handle : ServiceHandle) : Except Error (Nat × ServiceRecord) :=
  let slot := handle.slot.toNat
  if maxServices ≤ slot ∨ s.generations.get slot ≠ handle.generation then .error .invalidHandle
  else
    match s.records.get slot with
    | some record => .ok (slot, record)
    | none => .error .invalidHandle

end Supervisor

/-! ### The checks -/

/-- `ProcessTable::process_state`. -/
def processState (processes : Process.ProcessTable) (process : Process.ProcessId) :
    Except Process.Error Process.ProcessState :=
  (processes.process process).map (·.state)

/-- The conditions are tried from the left, so an id that is unknown is reported
    as such only if the ones before it hold. -/
def validateProcess (processes : Process.ProcessTable) (process : Process.ProcessId)
    (thread : Process.ThreadId) : Except Error Unit := do
  if process = Process.ProcessId.init then throw .notUserThread
  let state ← (processState processes process).mapError .process
  if state ≠ .running then throw .notUserThread
  let record ← (processes.thread thread).mapError .process
  if record.process ≠ some process then throw .notUserThread
  if record.kind ≠ .user then throw .notUserThread
  if ¬ (record.state = .ready ∨ record.state = .running) then throw .notUserThread

def validateDeviceId (record : ServiceRecord) (device : Device) (driver : Driver) :
    Except Error Unit :=
  if record.device ≠ device.id ∨ record.driver.id ≠ driver.id then .error .deviceMismatch
  else .ok ()

def validateDevice (record : ServiceRecord) (device : Device) (driver : Driver) :
    Except Error Unit := do
  validateDeviceId record device driver
  if device.driver ≠ some driver.id then throw .deviceMismatch

/-! ### The operations -/

/-- Run a program of the framework on the device. -/
def onDevice {α : Type} (x : DeviceM α) : ServiceM α :=
  mapError .driver (within Scene.device (fun s device => { s with device }) x)

/-- Run a program of the process table. -/
def onProcesses {α : Type} (x : Process.TableM α) : ServiceM α :=
  mapError .process (within Scene.processes (fun s processes => { s with processes }) x)

/-- Write a record back to its slot. -/
def save (slot : Nat) (record : ServiceRecord) : ServiceM Unit :=
  modify fun s => { s with supervisor := s.supervisor.put slot (some record) }

def register (driver : Driver) (process : Process.ProcessId) (thread : Process.ThreadId) :
    ServiceM ServiceHandle := do
  let device ← read (·.device)
  if device.state ≠ .ready ∨ device.published = false ∨ device.driver ≠ some driver.id then
    fail .invalidState
  lift (fun s => validateProcess s.processes process thread)
  if (← read (fun s => s.supervisor.records.any fun slot =>
      slot.any fun record => record.device = device.id)) = true then
    fail .alreadyRegistered
  let slot ← lookup .capacity (·.supervisor.records.position Option.isNone)
  let generation ← read (·.supervisor.generations.get slot)
  save slot
    { device := device.id, driver, process, thread, state := .registered,
      endpointActive := false, restarts := 0 }
  return { slot := UInt8.ofNat slot, generation }

def start (handle : ServiceHandle) (driver : Driver) : ServiceM Unit := do
  let (slot, record) ← lift (·.supervisor.record handle)
  lift (fun s => validateDevice record s.device driver)
  if record.state ≠ .registered then fail .invalidState
  lift (fun s => validateProcess s.processes record.process record.thread)
  save slot { record with state := .running, endpointActive := true }

def quiesce (handle : ServiceHandle) (driver : Driver) : ServiceM Unit := do
  let (slot, record) ← lift (·.supervisor.record handle)
  lift (fun s => validateDevice record s.device driver)
  if record.state ≠ .running then fail .invalidState
  match (← attempt (onDevice (Framework.quiesce driver))) with
  | .error error =>
    save slot { record with state := .failed, endpointActive := false }
    fail error
  | .ok _ => save slot { record with state := .quiescing, endpointActive := false }

/-- The first part of `stop`: `remove`, and `revoke` if that failed. What is
    returned is the failure to report, if there is one. -/
def detach (driver : Driver) : ServiceM (Option Error) := do
  match (← attempt (onDevice (remove driver))) with
  | .ok _ => return none
  | .error error =>
    match (← attempt (onDevice (revoke driver))) with
    | .ok _ => return some error
    | .error revokeError => return some revokeError

/-- The second part: the device has to be gone. -/
def checkRemoved (failure : Option Error) : ServiceM (Option Error) := do
  let device ← read (·.device)
  if device.state ≠ .removed ∨ device.resources ≠ [] then
    return failure.or (some .invalidState)
  else return failure

/-- The third part: the process of the service ends. -/
def endProcess (process : Process.ProcessId) (failure : Option Error) :
    ServiceM (Option Error) := do
  match (← read (fun s => processState s.processes process)) with
  | .ok .running =>
    match (← attempt (onProcesses (Process.exit process 0))) with
    | .ok _ => return failure
    | .error error => return failure.or (some error)
  | .ok .exiting | .ok .zombie | .ok .reaped => return failure
  | .ok .creating => return failure.or (some .invalidState)
  | .error .invalidId => return failure
  | .error error => return failure.or (some (.process error))

def stop (handle : ServiceHandle) (driver : Driver) : ServiceM Unit := do
  let (slot, record) ← lift (·.supervisor.record handle)
  lift (fun s => validateDevice record s.device driver)
  if record.state ≠ .quiescing then fail .invalidState
  let failure ← detach driver
  let failure ← checkRemoved failure
  let failure ← endProcess record.process failure
  save slot
    { record with
      endpointActive := false
      state := if failure.isSome then .failed else .stopped }
  match failure with
  | some error => fail error
  | none => pure ()

def saturatingSucc (count : UInt8) : UInt8 := if count = 255 then 255 else count + 1

def restart (handle : ServiceHandle) (driver : Driver) (process : Process.ProcessId)
    (thread : Process.ThreadId) : ServiceM Unit := do
  let (slot, record) ← lift (·.supervisor.record handle)
  lift (fun s => validateDeviceId record s.device driver)
  if ¬ (record.state = .stopped ∨ record.state = .failed) then fail .invalidState
  if maxRestarts ≤ record.restarts then fail .restartLimit
  lift (fun s => validateProcess s.processes process thread)
  onDevice (probe driver)
  onDevice publish
  save slot
    { record with
      driver, process, thread
      state := .registered
      endpointActive := false
      restarts := saturatingSucc record.restarts }

def recoverCrash (handle : ServiceHandle) (driver : Driver) : ServiceM Bool := do
  let (slot, record) ← lift (·.supervisor.record handle)
  lift (fun s => validateDevice record s.device driver)
  if record.state ≠ .running then fail .invalidState
  let state ← lift (fun s => (processState s.processes record.process).mapError .process)
  if state = .running then return false
  quiesce handle driver
  stop handle driver
  let (_, record) ← lift (·.supervisor.record handle)
  save slot { record with state := .failed, endpointActive := false }
  return true

/-- The record is gone before the generation is known to have a successor. -/
def unregister (handle : ServiceHandle) : ServiceM Unit := do
  let (slot, record) ← lift (·.supervisor.record handle)
  if record.state = .running ∨ record.state = .quiescing then fail .invalidState
  modify fun s => { s with supervisor := s.supervisor.put slot none }
  let generation ← lookup .generationExhausted
    (fun s => Arena.checkedSucc (s.supervisor.generations.get slot))
  modify fun s => { s with supervisor :=
    { s.supervisor with generations := s.supervisor.generations.set slot generation } }

/-! ### Every call -/

/-- A call of one operation. -/
inductive Call where
  | register (process : Process.ProcessId) (thread : Process.ThreadId)
  | start (handle : ServiceHandle)
  | quiesce (handle : ServiceHandle)
  | stop (handle : ServiceHandle)
  | restart (handle : ServiceHandle) (process : Process.ProcessId) (thread : Process.ThreadId)
  | recoverCrash (handle : ServiceHandle)
  | unregister (handle : ServiceHandle)

inductive Reply where
  | handle (handle : ServiceHandle)
  | recovered (crashed : Bool)
  | done
  deriving DecidableEq, Repr

def Call.perform (driver : Driver) : Call → ServiceM Reply
  | register process thread => do return .handle (← Service.register driver process thread)
  | start handle => do Service.start handle driver; return .done
  | quiesce handle => do Service.quiesce handle driver; return .done
  | stop handle => do Service.stop handle driver; return .done
  | restart handle process thread => do
    Service.restart handle driver process thread; return .done
  | recoverCrash handle => do return .recovered (← Service.recoverCrash handle driver)
  | unregister handle => do Service.unregister handle; return .done

/-- A call with the device, the driver and the process table it is made with. -/
structure Request where
  call : Call
  device : Device
  driver : Driver
  processes : Process.ProcessTable

/-- What a request returns and leaves of all three. -/
def Request.outcome (request : Request) (s : Supervisor) : Except Error Reply × Scene :=
  request.call.perform request.driver
    { supervisor := s, device := request.device, processes := request.processes }

def step (s : Supervisor) (request : Request) : Supervisor := (request.outcome s).2.supervisor

end Service

end Norx
