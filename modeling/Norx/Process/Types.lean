import Norx.Lib.Arena

/-!
# Process Table Data Model

The process and thread tables of `process.rs`. Both are fixed arrays of
optional records with an array of generations beside each, and a process or
thread id is the name of a slot in its generation. The lookups `process` and
`thread` are one lookup at two tables.

An id is the word the source wraps. Ids reach the table from outside as raw
words, so any word may be one. The threads of a process and its descriptors are
small tables of their own inside its record.

## Main definitions

* `ProcessId`, `ThreadId`, `FileDescriptor`: The names callers hold.
* `ProcessState`, `ThreadState`, `ThreadKind`: The states of both machines.
* `ProcessRecord`, `ThreadRecord`: What the tables hold.
* `ProcessTable`: The four arrays.
* `ProcessTable.process`, `ProcessTable.thread`: Looking up an id.

## Theorems

* `process_ok`, `thread_ok`: What a lookup found.
-/

namespace Norx

namespace Process

def maxProcesses : Nat := 32
def maxThreads : Nat := 64
def maxProcessThreads : Nat := 4
def maxFds : Nat := 32

@[ext]
structure ProcessId where
  raw : UInt32
  deriving DecidableEq, Repr

namespace ProcessId

def init : ProcessId := ⟨1⟩

def fromRaw (value : UInt32) : ProcessId := ⟨value⟩

def new (slot : Nat) (generation : UInt16) : ProcessId := ⟨Arena.name slot generation⟩

def slot (id : ProcessId) : Option Nat := Arena.slotOf maxProcesses id.raw

end ProcessId

@[ext]
structure ThreadId where
  raw : UInt32
  deriving DecidableEq, Repr

namespace ThreadId

def new (slot : Nat) (generation : UInt16) : ThreadId := ⟨Arena.name slot generation⟩

def slot (id : ThreadId) : Option Nat := Arena.slotOf maxThreads id.raw

end ThreadId

structure FileDescriptor where
  raw : UInt32
  deriving DecidableEq, Repr

namespace FileDescriptor

def new (slot : Nat) : FileDescriptor := ⟨UInt32.ofNat slot⟩

def fromRaw (value : UInt32) : FileDescriptor := ⟨value⟩

def slot (fd : FileDescriptor) : Option Nat :=
  if fd.raw.toNat < maxFds then some fd.raw.toNat else none

end FileDescriptor

inductive ProcessState where
  | creating
  | running
  | exiting
  | zombie
  | reaped
  deriving DecidableEq, Repr

inductive ThreadState where
  | created
  | ready
  | running
  | blocked
  | sleeping
  | exited
  deriving DecidableEq, Repr

inductive ThreadKind where
  | kernel
  | user
  deriving DecidableEq, Repr

structure ContextSwitch where
  from_ : Option ThreadId
  to_ : ThreadId
  toKind : ThreadKind
  deriving DecidableEq, Repr

structure Credentials where
  realUid : UInt32
  effectiveUid : UInt32
  savedUid : UInt32
  realGid : UInt32
  effectiveGid : UInt32
  savedGid : UInt32
  capabilities : UInt64
  deriving DecidableEq, Repr

inductive Capability where
  | mount
  | rawIo
  | netAdmin
  | netRaw
  | memoryMap
  | deviceAdmin
  deriving DecidableEq, Repr

/-- The discriminant the source gives the capability. -/
def Capability.bit : Capability → UInt8
  | mount => 0
  | rawIo => 1
  | netAdmin => 2
  | netRaw => 3
  | memoryMap => 4
  | deviceAdmin => 5

inductive Error where
  | invalidId
  | invalidState
  | processCapacity
  | threadCapacity
  | fdCapacity
  | invalidFd
  | noChild
  | generationExhausted
  | permissionDenied
  deriving DecidableEq, Repr

namespace Credentials

def bootstrap : Credentials :=
  { realUid := 0, effectiveUid := 0, savedUid := 0, realGid := 0, effectiveGid := 0,
    savedGid := 0, capabilities := 0xffffffffffffffff }

def hasCapability (credentials : Credentials) (capability : UInt8) : Bool :=
  capability < 64 && credentials.capabilities &&& (1 <<< capability.toUInt64) != 0

def authorize (credentials : Credentials) (capability : Capability) : Except Error Unit :=
  if credentials.hasCapability capability.bit then .ok () else .error .permissionDenied

end Credentials

structure FdEntry where
  openFile : UInt32
  closeOnExec : Bool
  nonblocking : Bool
  readable : Bool
  writable : Bool
  deriving DecidableEq, Repr

/-- Descriptors 0, 1 and 2 of a new process. -/
def standardFds : Slots maxFds (Option FdEntry) :=
  (((Slots.replicate _ none).set 0 (some
    { openFile := 0, closeOnExec := false, nonblocking := true, readable := true,
      writable := false })).set 1 (some
    { openFile := 1, closeOnExec := false, nonblocking := false, readable := false,
      writable := true })).set 2 (some
    { openFile := 2, closeOnExec := false, nonblocking := false, readable := false,
      writable := true })

structure ProcessRecord where
  id : ProcessId
  parent : Option ProcessId
  state : ProcessState
  credentials : Credentials
  exitStatus : Option Int32
  pendingSignals : UInt64
  pendingEvents : UInt64
  threads : Slots maxProcessThreads (Option ThreadId)
  fds : Slots maxFds (Option FdEntry)

def ProcessRecord.new (id : ProcessId) (parent : Option ProcessId) (credentials : Credentials) :
    ProcessRecord :=
  { id, parent, state := .creating, credentials, exitStatus := none, pendingSignals := 0,
    pendingEvents := 0, threads := Slots.replicate _ none, fds := standardFds }

structure ThreadRecord where
  id : ThreadId
  process : Option ProcessId
  state : ThreadState
  kind : ThreadKind
  runtimeTicks : UInt64
  preemptions : UInt64
  contextSwitches : UInt64
  deriving DecidableEq, Repr

@[ext]
structure ProcessTable where
  processes : Slots maxProcesses (Option ProcessRecord)
  processGenerations : Slots maxProcesses UInt16
  threads : Slots maxThreads (Option ThreadRecord)
  threadGenerations : Slots maxThreads UInt16

namespace ProcessTable

def new : ProcessTable :=
  { processes := Slots.replicate _ none, processGenerations := Slots.replicate _ 0,
    threads := Slots.replicate _ none, threadGenerations := Slots.replicate _ 0 }

/-- The slot and the record of a process id. -/
def locateProcess (t : ProcessTable) (id : ProcessId) : Option (Nat × ProcessRecord) :=
  Arena.locate t.processes t.processGenerations (·.id.raw) id.raw

/-- The slot and the record of a thread id. -/
def locateThread (t : ProcessTable) (id : ThreadId) : Option (Nat × ThreadRecord) :=
  Arena.locate t.threads t.threadGenerations (·.id.raw) id.raw

def process (t : ProcessTable) (id : ProcessId) : Except Error ProcessRecord :=
  match t.locateProcess id with
  | none => .error .invalidId
  | some (_, record) => .ok record

def thread (t : ProcessTable) (id : ThreadId) : Except Error ThreadRecord :=
  match t.locateThread id with
  | none => .error .invalidId
  | some (_, record) => .ok record

end ProcessTable

section Lookup

variable {t : ProcessTable}

theorem process_ok {id : ProcessId} {record : ProcessRecord} :
    t.process id = .ok record ↔ ∃ slot, t.locateProcess id = some (slot, record) := by
  unfold ProcessTable.process
  cases h : t.locateProcess id with
  | none => simp
  | some found => simp [Prod.ext_iff]

theorem process_error {id : ProcessId} {e : Error} :
    t.process id = .error e ↔ t.locateProcess id = none ∧ e = .invalidId := by
  unfold ProcessTable.process
  cases h : t.locateProcess id with
  | none => simp [eq_comm]
  | some found => simp

theorem thread_ok {id : ThreadId} {record : ThreadRecord} :
    t.thread id = .ok record ↔ ∃ slot, t.locateThread id = some (slot, record) := by
  unfold ProcessTable.thread
  cases h : t.locateThread id with
  | none => simp
  | some found => simp [Prod.ext_iff]

theorem thread_error {id : ThreadId} {e : Error} :
    t.thread id = .error e ↔ t.locateThread id = none ∧ e = .invalidId := by
  unfold ProcessTable.thread
  cases h : t.locateThread id with
  | none => simp [eq_comm]
  | some found => simp

end Lookup

end Process

end Norx
