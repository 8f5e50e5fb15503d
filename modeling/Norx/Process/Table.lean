import Norx.Lib.Fallible
import Norx.Lib.Word
import Norx.Process.Types

/-!
# Process Table Operations

The operations of `ProcessTable`, statement by statement, as programs whose
early returns keep what was written before them.

`create_init` and `spawn_child` share everything from the moment the slot is
known: write a record in state `Creating`, give it a thread, take the record
back if there is none to give, and set both going. That is `install`. `reap`
frees the threads of a zombie one after the other and then the process, and
every generation it raises may be the last one, so it can stop half way.

A `Call` is any request to the table with any arguments, the ones that only
read it included. `perform` carries it out and `Reply` is what it returns.

## Main definitions

* `createInit`, `spawnChild`, `spawnKernelThread`: Creating.
* `exit`, `wait`, `reap`: Ending.
* `openFd`, `closeFd`, `setCloseOnExec`, `closeOnExec`: Descriptors.
* `raiseSignal`, `raiseEvent`: Pending bits.
* `blockThread`, `wakeThread`, `preemptThread`, `switchTo`: Scheduling.
* `Query`, `Call`, `perform`: Every request.
-/

namespace Norx

namespace Process

open Fallible

/-- A program over the table. -/
abbrev TableM := Fallible ProcessTable Error

namespace ProcessTable

def setProcess (t : ProcessTable) (slot : Nat) (record : Option ProcessRecord) : ProcessTable :=
  { t with processes := t.processes.set slot record }

def setThread (t : ProcessTable) (slot : Nat) (record : Option ThreadRecord) : ProcessTable :=
  { t with threads := t.threads.set slot record }

def setProcessGeneration (t : ProcessTable) (slot : Nat) (generation : UInt16) : ProcessTable :=
  { t with processGenerations := t.processGenerations.set slot generation }

def setThreadGeneration (t : ProcessTable) (slot : Nat) (generation : UInt16) : ProcessTable :=
  { t with threadGenerations := t.threadGenerations.set slot generation }

end ProcessTable

/-- Write through `process_mut`. -/
def updateProcess (id : ProcessId) (f : ProcessRecord → ProcessRecord) : TableM Unit := do
  let (slot, record) ← lookup .invalidId (·.locateProcess id)
  modify (·.setProcess slot (some (f record)))

/-- Write through `thread_mut`. -/
def updateThread (id : ThreadId) (f : ThreadRecord → ThreadRecord) : TableM Unit := do
  let (slot, record) ← lookup .invalidId (·.locateThread id)
  modify (·.setThread slot (some (f record)))

/-! ### Creating -/

def allocateThread (process : Option ProcessId) (kind : ThreadKind) : TableM ThreadId := do
  let slot ← lookup .threadCapacity (fun t => t.threads.position Option.isNone)
  let threadIndex ← match process with
    | none => pure none
    | some process => do
      let record ← lift (·.process process)
      let index ← lookup .threadCapacity (fun _ => record.threads.position Option.isNone)
      pure (some index)
  let id ← read (fun t => ThreadId.new slot (t.threadGenerations.get slot))
  modify (·.setThread slot (some
    { id, process, state := .created, kind, runtimeTicks := 0, preemptions := 0,
      contextSwitches := 0 }))
  match process, threadIndex with
  | some process, some index =>
    updateProcess process (fun record =>
      { record with threads := record.threads.set index (some id) })
  | _, _ => pure ()
  return id

/-- What `create_init` and `spawn_child` do once they have a slot. -/
def install (slot : Nat) (parent : Option ProcessId) (credentials : Credentials) :
    TableM (ProcessId × ThreadId) := do
  let process ← read (fun t => ProcessId.new slot (t.processGenerations.get slot))
  modify (·.setProcess slot (some (ProcessRecord.new process parent credentials)))
  match (← attempt (allocateThread (some process) .user)) with
  | .error e =>
    modify (·.setProcess slot none)
    fail e
  | .ok thread =>
    updateProcess process (fun record => { record with state := .running })
    updateThread thread (fun record => { record with state := .ready })
    return (process, thread)

def createInit : TableM (ProcessId × ThreadId) := do
  if (← read (fun t => (t.processes.get 0).isSome)) = true then fail .invalidState
  install 0 none Credentials.bootstrap

def spawnChild (parent : ProcessId) (credentials : Credentials) :
    TableM (ProcessId × ThreadId) := do
  if (← lift (·.process parent)).state ≠ .running then fail .invalidState
  let slot ← lookup .processCapacity (fun t => t.processes.position Option.isNone)
  install slot (some parent) credentials

def spawnKernelThread : TableM ThreadId := do
  let thread ← allocateThread none .kernel
  updateThread thread (fun record => { record with state := .ready })
  return thread

/-! ### Ending -/

/-- The first loop of `exit`: every thread of the process ends. -/
def exitThreads (process : ProcessId) (t : ProcessTable) : ProcessTable :=
  { t with threads := t.threads.map (Option.map fun record =>
      if record.process = some process then { record with state := .exited } else record) }

/-- The second loop of `exit`: every child of the process goes to init. -/
def reparent (process : ProcessId) (t : ProcessTable) : ProcessTable :=
  { t with processes := t.processes.map (Option.map fun record =>
      if record.parent = some process then { record with parent := some ProcessId.init }
      else record) }

def exit (process : ProcessId) (status : Int32) : TableM Unit := do
  if process = ProcessId.init then fail .invalidState
  if (← lift (·.process process)).state ≠ .running then fail .invalidState
  updateProcess process (fun record =>
    { record with state := .exiting, exitStatus := some status, fds := Slots.replicate _ none })
  modify (exitThreads process)
  modify (reparent process)
  updateProcess process (fun record => { record with state := .zombie })

/-- The body of the loop of `reap`. The slot is empty before the generation is
    known to have a successor. -/
def freeThread (thread : ThreadId) : TableM Unit := do
  let slot ← lookup .invalidId (fun _ => thread.slot)
  if (← read (fun t => (t.threads.get slot).map (·.id))) ≠ some thread then fail .invalidId
  modify (·.setThread slot none)
  let generation ← lookup .generationExhausted
    (fun t => Arena.checkedSucc (t.threadGenerations.get slot))
  modify (·.setThreadGeneration slot generation)

/-- The loop of `reap`. -/
def freeThreads : List ThreadId → TableM Unit
  | [] => pure ()
  | thread :: rest => do
    freeThread thread
    freeThreads rest

def reap (process : ProcessId) : TableM Unit := do
  let slot ← lookup .invalidId (fun _ => process.slot)
  let record ← lift (·.process process)
  if record.state ≠ .zombie then fail .invalidState
  freeThreads record.threads.entries
  modify (·.setProcess slot none)
  let generation ← lookup .generationExhausted
    (fun t => Arena.checkedSucc (t.processGenerations.get slot))
  modify (·.setProcessGeneration slot generation)

/-- The child `wait` will report. -/
def waitCandidate (parent : ProcessId) (child : Option ProcessId) (t : ProcessTable) :
    Except Error ProcessId :=
  match child with
  | some child => do
    let record ← t.process child
    if record.parent ≠ some parent ∨ record.state ≠ .zombie then .error .noChild
    else .ok child
  | none =>
    match t.processes.entries.find? (fun record =>
        decide (record.parent = some parent) && decide (record.state = .zombie)) with
    | none => .error .noChild
    | some record => .ok record.id

def wait (parent : ProcessId) (child : Option ProcessId) : TableM (ProcessId × Int32) := do
  let _ ← lift (·.process parent)
  let candidate ← lift (waitCandidate parent child)
  let record ← lift (·.process candidate)
  let status ← lookup .invalidState (fun _ => record.exitStatus)
  reap candidate
  return (candidate, status)

/-! ### Descriptors and pending bits -/

def openFd (process : ProcessId) (openFile : UInt32) (readable writable : Bool) :
    TableM FileDescriptor := do
  if (← lift (·.process process)).state ≠ .running then fail .invalidState
  let record ← lift (·.process process)
  let slot ← lookup .fdCapacity (fun _ => record.fds.position Option.isNone)
  updateProcess process (fun record =>
    { record with fds := record.fds.set slot (some
        { openFile, closeOnExec := false, nonblocking := false, readable, writable }) })
  return FileDescriptor.new slot

/-- The descriptor a request names, which it must have open. -/
def fdEntry (t : ProcessTable) (process : ProcessId) (fd : FileDescriptor) :
    Except Error (Nat × FdEntry) :=
  match fd.slot with
  | none => .error .invalidFd
  | some slot => do
    let record ← t.process process
    match record.fds.get slot with
    | none => .error .invalidFd
    | some entry => .ok (slot, entry)

def closeFd (process : ProcessId) (fd : FileDescriptor) : TableM Unit := do
  let (slot, _) ← lift (fdEntry · process fd)
  updateProcess process (fun record => { record with fds := record.fds.set slot none })

def setCloseOnExec (process : ProcessId) (fd : FileDescriptor) (enabled : Bool) :
    TableM Unit := do
  let (slot, entry) ← lift (fdEntry · process fd)
  updateProcess process (fun record =>
    { record with fds := record.fds.set slot (some { entry with closeOnExec := enabled }) })

/-- Whether `close_on_exec` closes the descriptor. -/
def closesOnExec (entry : Option FdEntry) : Bool := entry.any (·.closeOnExec)

def closeOnExec (process : ProcessId) : TableM Nat := do
  let record ← lift (·.process process)
  updateProcess process (fun record =>
    { record with fds := record.fds.map fun entry => if closesOnExec entry then none else entry })
  return record.fds.count closesOnExec

def raiseSignal (process : ProcessId) (signal : UInt8) : TableM Unit := do
  if signal ≥ 64 then fail .invalidState
  updateProcess process (fun record =>
    { record with pendingSignals := record.pendingSignals ||| (1 <<< signal.toUInt64) })

def raiseEvent (process : ProcessId) (event : UInt8) : TableM Unit := do
  if event ≥ 64 then fail .invalidState
  updateProcess process (fun record =>
    { record with pendingEvents := record.pendingEvents ||| (1 <<< event.toUInt64) })

/-! ### Scheduling -/

def accountThread (thread : ThreadId) (ticks : UInt64) : TableM Unit := do
  if (← lift (·.thread thread)).state ≠ .running then fail .invalidState
  updateThread thread (fun record =>
    { record with runtimeTicks := Word.saturatingAdd record.runtimeTicks ticks })

def blockThread (thread : ThreadId) (sleeping : Bool) : TableM Unit := do
  let record ← lift (·.thread thread)
  if ¬ (record.state = .ready ∨ record.state = .running) then fail .invalidState
  updateThread thread (fun record =>
    { record with state := if sleeping then .sleeping else .blocked })

def wakeThread (thread : ThreadId) : TableM Unit := do
  let record ← lift (·.thread thread)
  if ¬ (record.state = .blocked ∨ record.state = .sleeping) then fail .invalidState
  updateThread thread (fun record => { record with state := .ready })

def preemptThread (thread : ThreadId) : TableM Unit := do
  if (← lift (·.thread thread)).state ≠ .running then fail .invalidState
  updateThread thread (fun record =>
    { record with state := .ready, preemptions := Word.saturatingAdd record.preemptions 1 })

def switchTo (from_ : Option ThreadId) (to_ : ThreadId) : TableM ContextSwitch := do
  if from_ = some to_ then fail .invalidState
  match from_ with
  | none => pure ()
  | some current =>
    if (← lift (·.thread current)).state ≠ .running then fail .invalidState
  let next ← lift (·.thread to_)
  if next.state ≠ .ready then fail .invalidState
  match from_ with
  | none => pure ()
  | some current => updateThread current (fun record => { record with state := .ready })
  updateThread to_ (fun record =>
    { record with state := .running,
                  contextSwitches := Word.saturatingAdd record.contextSwitches 1 })
  return { from_, to_, toKind := next.kind }

def pickReady (t : ProcessTable) : Option ThreadId :=
  (t.threads.entries.find? (fun thread => decide (thread.state = .ready))).map (·.id)

/-! ### Requests -/

/-- A request that only reads the table. -/
inductive Query where
  | fdInfo (process : ProcessId) (fd : FileDescriptor)
  | fdAccess (process : ProcessId) (fd : FileDescriptor)
  | signalPending (process : ProcessId) (signal : UInt8)
  | credentials (process : ProcessId)
  | processState (process : ProcessId)
  | authorize (process : ProcessId) (capability : Capability)
  | threadState (thread : ThreadId)
  | threadKind (thread : ThreadId)
  | threadOwner (thread : ThreadId)
  | threadAccounting (thread : ThreadId)

/-- What a request returns. -/
inductive Reply where
  | done
  | created (process : ProcessId) (thread : ThreadId)
  | thread (thread : ThreadId)
  | waited (child : ProcessId) (status : Int32)
  | fd (fd : FileDescriptor)
  | closed (count : Nat)
  | switched (switch : ContextSwitch)
  | entry (entry : FdEntry)
  | access (nonblocking readable writable : Bool)
  | pending (pending : Bool)
  | credentials (credentials : Credentials)
  | processState (state : ProcessState)
  | threadState (state : ThreadState)
  | threadKind (kind : ThreadKind)
  | threadOwner (owner : Option ProcessId)
  | accounting (runtimeTicks preemptions contextSwitches : UInt64)
  deriving DecidableEq, Repr

def Query.ask (t : ProcessTable) : Query → Except Error Reply
  | fdInfo process fd => do
    let (_, entry) ← fdEntry t process fd
    return .entry entry
  | fdAccess process fd => do
    let (_, entry) ← fdEntry t process fd
    return .access entry.nonblocking entry.readable entry.writable
  | signalPending process signal =>
    if signal ≥ 64 then .error .invalidState
    else do
      let record ← t.process process
      return .pending (record.pendingSignals &&& (1 <<< signal.toUInt64) != 0)
  | credentials process => do return .credentials (← t.process process).credentials
  | processState process => do return .processState (← t.process process).state
  | authorize process capability => do
    let record ← t.process process
    let _ ← record.credentials.authorize capability
    return .done
  | threadState thread => do return .threadState (← t.thread thread).state
  | threadKind thread => do return .threadKind (← t.thread thread).kind
  | threadOwner thread => do return .threadOwner (← t.thread thread).process
  | threadAccounting thread => do
    let record ← t.thread thread
    return .accounting record.runtimeTicks record.preemptions record.contextSwitches

/-- A request to the table. -/
inductive Call where
  | createInit
  | spawnChild (parent : ProcessId) (credentials : Credentials)
  | spawnKernelThread
  | exit (process : ProcessId) (status : Int32)
  | wait (parent : ProcessId) (child : Option ProcessId)
  | openFd (process : ProcessId) (openFile : UInt32) (readable writable : Bool)
  | closeFd (process : ProcessId) (fd : FileDescriptor)
  | setCloseOnExec (process : ProcessId) (fd : FileDescriptor) (enabled : Bool)
  | closeOnExec (process : ProcessId)
  | raiseSignal (process : ProcessId) (signal : UInt8)
  | raiseEvent (process : ProcessId) (event : UInt8)
  | accountThread (thread : ThreadId) (ticks : UInt64)
  | blockThread (thread : ThreadId) (sleeping : Bool)
  | wakeThread (thread : ThreadId)
  | preemptThread (thread : ThreadId)
  | switchTo (from_ : Option ThreadId) (to_ : ThreadId)
  | query (question : Query)

def Call.perform : Call → TableM Reply
  | createInit => do
    let (process, thread) ← Process.createInit
    return .created process thread
  | spawnChild parent credentials => do
    let (process, thread) ← Process.spawnChild parent credentials
    return .created process thread
  | spawnKernelThread => do return .thread (← Process.spawnKernelThread)
  | exit process status => do
    Process.exit process status
    return .done
  | wait parent child => do
    let (process, status) ← Process.wait parent child
    return .waited process status
  | openFd process openFile readable writable => do
    return .fd (← Process.openFd process openFile readable writable)
  | closeFd process fd => do
    Process.closeFd process fd
    return .done
  | setCloseOnExec process fd enabled => do
    Process.setCloseOnExec process fd enabled
    return .done
  | closeOnExec process => do return .closed (← Process.closeOnExec process)
  | raiseSignal process signal => do
    Process.raiseSignal process signal
    return .done
  | raiseEvent process event => do
    Process.raiseEvent process event
    return .done
  | accountThread thread ticks => do
    Process.accountThread thread ticks
    return .done
  | blockThread thread sleeping => do
    Process.blockThread thread sleeping
    return .done
  | wakeThread thread => do
    Process.wakeThread thread
    return .done
  | preemptThread thread => do
    Process.preemptThread thread
    return .done
  | switchTo from_ to_ => do return .switched (← Process.switchTo from_ to_)
  | query question => lift (fun t => question.ask t)

/-- What a request returns. -/
def outcome (t : ProcessTable) (call : Call) : Except Error Reply := (call.perform t).1

/-- The table a request leaves behind. -/
def step (t : ProcessTable) (call : Call) : ProcessTable := (call.perform t).2

end Process

end Norx
