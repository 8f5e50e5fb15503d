import Norx.Process.Table

/-!
# What a Request to the Process Table Can Do

Every request to the table makes one of a few changes to it, and which one can
be read off what it returns. `event` is that reading: a process was spawned, it
exited, a child was reaped, a generation ran out, or nothing happened that the
life of a process or thread is concerned with. `Change` lists the changes with
everything the code has checked by the time it makes them, and `step_change`
is the one place where the programs are taken apart. All invariants are proved
about `Change`.

A quiet change (`Touched`) may rewrite records in place: descriptors, pending
bits and counters of a process, and the state of a thread, except that a thread
that has exited stays exited.

Running out of generations is two changes. The slot of a thread, and later the
slot of the process, is emptied before its generation is looked at, so the
request fails with the slot gone and the generation where it was.

## Main definitions

* `Event`, `event`: What a request turned out to do.

## Theorems

* `step_change`: A request makes the change its event names.
* `failed_step`: A request that fails without running out of generations
  changes nothing.
-/

namespace Norx

namespace Process

open Fallible Slots Arena

/-- What a request turned out to do. -/
inductive Event where
  | spawned (parent : Option ProcessId) (process : ProcessId) (thread : ThreadId)
  | kernel (thread : ThreadId)
  | exited (process : ProcessId) (status : Int32)
  | reaped (parent child : ProcessId) (status : Int32)
  | torn
  | quiet
  deriving DecidableEq, Repr

/-- The event of a request and its outcome. -/
def eventOf : Call → Except Error Reply → Event
  | .createInit, .ok (.created process thread) => .spawned none process thread
  | .spawnChild parent _, .ok (.created process thread) => .spawned (some parent) process thread
  | .spawnKernelThread, .ok (.thread thread) => .kernel thread
  | .exit process status, .ok _ => .exited process status
  | .wait parent _, .ok (.waited child status) => .reaped parent child status
  | _, .error .generationExhausted => .torn
  | _, _ => .quiet

def event (t : ProcessTable) (call : Call) : Event := eventOf call (outcome t call)

/-! ### Changes -/

/-- The record of a process, rewritten in place. -/
structure SameProcess (record record' : ProcessRecord) : Prop where
  id : record'.id = record.id
  parent : record'.parent = record.parent
  state : record'.state = record.state
  exitStatus : record'.exitStatus = record.exitStatus
  threads : record'.threads = record.threads

/-- The record of a thread, rewritten in place. -/
structure SameThread (record record' : ThreadRecord) : Prop where
  id : record'.id = record.id
  process : record'.process = record.process
  kind : record'.kind = record.kind
  exited : record.state = .exited → record'.state = .exited

/-- Records are rewritten in place, and nothing else changes. -/
structure Touched (t t' : ProcessTable) : Prop where
  processGenerations : t'.processGenerations = t.processGenerations
  threadGenerations : t'.threadGenerations = t.threadGenerations
  processes : ∀ i, Option.Rel SameProcess (t.processes.get i) (t'.processes.get i)
  threads : ∀ i, Option.Rel SameThread (t.threads.get i) (t'.threads.get i)

/-- The record of a new process with its thread. -/
def firstRecord (process : ProcessId) (parent : Option ProcessId) (credentials : Credentials)
    (thread : ThreadId) : ProcessRecord :=
  { ProcessRecord.new process parent credentials with
    state := .running, threads := (Slots.replicate _ none).set 0 (some thread) }

/-- The record of a new thread. -/
def firstThread (thread : ThreadId) (process : Option ProcessId) (kind : ThreadKind) :
    ThreadRecord :=
  { id := thread, process, state := .ready, kind, runtimeTicks := 0, preemptions := 0,
    contextSwitches := 0 }

/-- A process and its thread in two slots. -/
def spawned (t : ProcessTable) (slot threadSlot : Nat) (parent : Option ProcessId)
    (credentials : Credentials) : ProcessTable :=
  let process := ProcessId.new slot (t.processGenerations.get slot)
  let thread := ThreadId.new threadSlot (t.threadGenerations.get threadSlot)
  (t.setProcess slot (some (firstRecord process parent credentials thread))).setThread threadSlot
    (some (firstThread thread (some process) .user))

/-- The record of a child of the process, which init takes over. -/
def adopt (process : ProcessId) (record : ProcessRecord) : ProcessRecord :=
  if record.parent = some process then { record with parent := some ProcessId.init } else record

/-- The record of a thread of the process, which ends. -/
def stop (process : ProcessId) (record : ThreadRecord) : ThreadRecord :=
  if record.process = some process then { record with state := .exited } else record

/-- The record of a process that has exited. -/
def bury (process : ProcessId) (status : Int32) (record : ProcessRecord) : ProcessRecord :=
  { adopt process record with
    state := .zombie, exitStatus := some status, fds := Slots.replicate _ none }

/-- A process becomes a zombie, its threads end and init takes over its
    children. -/
def exited (t : ProcessTable) (process : ProcessId) (slot : Nat) (record : ProcessRecord)
    (status : Int32) : ProcessTable :=
  { t with
    processes := (t.processes.map (Option.map (adopt process))).set slot
      (some (bury process status record)),
    threads := t.threads.map (Option.map (stop process)) }

/-- A thread and a process leave their slots for the given generations. -/
def reaped (t : ProcessTable) (slot threadSlot : Nat) (generation threadGeneration : UInt16) :
    ProcessTable :=
  (((t.setThread threadSlot none).setThreadGeneration threadSlot threadGeneration).setProcess slot
    none).setProcessGeneration slot generation

/-- A zombie child with its one thread, as `wait` finds it. -/
structure Reapable (t : ProcessTable) (parent child : ProcessId) (status : Int32) (slot : Nat)
    (record : ProcessRecord) (threadSlot : Nat) (threadRecord : ThreadRecord) : Prop where
  located : t.locateProcess child = some (slot, record)
  ofParent : record.parent = some parent
  zombie : record.state = .zombie
  exitStatus : record.exitStatus = some status
  lists : record.threads.entries = [threadRecord.id]
  threadNumber : threadRecord.id.slot = some threadSlot
  thread : t.threads.get threadSlot = some threadRecord

/-- One change to the table. -/
inductive Change (t : ProcessTable) : Event → ProcessTable → Prop
  | quiet {t' : ProcessTable} (htouched : Touched t t') : Change t .quiet t'
  | spawned {slot threadSlot : Nat} (parent : Option ProcessId) (credentials : Credentials)
      (hslot : slot < maxProcesses) (hfree : t.processes.get slot = none)
      (hthreadSlot : threadSlot < maxThreads) (hthread : t.threads.get threadSlot = none)
      (hinit : parent = none → slot = 0)
      (hparent : ∀ p, parent = some p → ∃ record, t.process p = .ok record ∧
        record.state = .running) :
      Change t (.spawned parent (ProcessId.new slot (t.processGenerations.get slot))
        (ThreadId.new threadSlot (t.threadGenerations.get threadSlot)))
        (Process.spawned t slot threadSlot parent credentials)
  | kernel {threadSlot : Nat} (hthreadSlot : threadSlot < maxThreads)
      (hthread : t.threads.get threadSlot = none) :
      Change t (.kernel (ThreadId.new threadSlot (t.threadGenerations.get threadSlot)))
        (t.setThread threadSlot (some (firstThread
          (ThreadId.new threadSlot (t.threadGenerations.get threadSlot)) none .kernel)))
  | exited {process : ProcessId} {slot : Nat} {record : ProcessRecord} (status : Int32)
      (hprocess : process ≠ ProcessId.init) (hlocate : t.locateProcess process = some (slot, record))
      (hrunning : record.state = .running) :
      Change t (.exited process status) (Process.exited t process slot record status)
  | reaped {parent child : ProcessId} {status : Int32} {slot : Nat} {record : ProcessRecord}
      {threadSlot : Nat} {threadRecord : ThreadRecord} {generation threadGeneration : UInt16}
      (hreapable : Reapable t parent child status slot record threadSlot threadRecord)
      (hthread : Arena.checkedSucc (t.threadGenerations.get threadSlot) = some threadGeneration)
      (hprocess : Arena.checkedSucc (t.processGenerations.get slot) = some generation) :
      Change t (.reaped parent child status)
        (Process.reaped t slot threadSlot generation threadGeneration)
  | tornThread {parent child : ProcessId} {status : Int32} {slot : Nat} {record : ProcessRecord}
      {threadSlot : Nat} {threadRecord : ThreadRecord}
      (hreapable : Reapable t parent child status slot record threadSlot threadRecord)
      (hthread : Arena.checkedSucc (t.threadGenerations.get threadSlot) = none) :
      Change t .torn (t.setThread threadSlot none)
  | tornProcess {parent child : ProcessId} {status : Int32} {slot : Nat} {record : ProcessRecord}
      {threadSlot : Nat} {threadRecord : ThreadRecord} {threadGeneration : UInt16}
      (hreapable : Reapable t parent child status slot record threadSlot threadRecord)
      (hthread : Arena.checkedSucc (t.threadGenerations.get threadSlot) = some threadGeneration)
      (hprocess : Arena.checkedSucc (t.processGenerations.get slot) = none) :
      Change t .torn (Process.reaped t slot threadSlot (t.processGenerations.get slot)
        threadGeneration)

/-! ### Rewriting in place -/

theorem SameProcess.refl (record : ProcessRecord) : SameProcess record record :=
  ⟨rfl, rfl, rfl, rfl, rfl⟩

theorem SameThread.refl (record : ThreadRecord) : SameThread record record :=
  ⟨rfl, rfl, rfl, fun h => h⟩

variable {ρ : Type} {r : ρ → ρ → Prop}

theorem rel_of_eq (hr : ∀ record, r record record) {a b : Option ρ} (h : a = b) :
    Option.Rel r a b := by
  subst h
  cases a with
  | none => exact Option.Rel.none
  | some record => exact Option.Rel.some (hr record)

theorem Touched.refl (t : ProcessTable) : Touched t t :=
  ⟨rfl, rfl, fun _ => rel_of_eq SameProcess.refl rfl, fun _ => rel_of_eq SameThread.refl rfl⟩

variable {t : ProcessTable} {id : ProcessId} {slot : Nat} {record : ProcessRecord}

theorem locateProcess_get (h : t.locateProcess id = some (slot, record)) :
    slot < maxProcesses ∧ t.processes.get slot = some record ∧ record.id = id := by
  rcases locate_eq_some.mp h with ⟨-, -, hget, hname⟩
  exact ⟨lt_of_get_some hget, hget, ProcessId.ext hname⟩

theorem locateThread_get {id : ThreadId} {record : ThreadRecord}
    (h : t.locateThread id = some (slot, record)) :
    slot < maxThreads ∧ t.threads.get slot = some record ∧ record.id = id := by
  rcases locate_eq_some.mp h with ⟨-, -, hget, hname⟩
  exact ⟨lt_of_get_some hget, hget, ThreadId.ext hname⟩

theorem rel_set {n : Nat} (hr : ∀ record, r record record)
    {slots : Slots n (Option ρ)} {record record' : ρ} (hget : slots.get slot = some record)
    (hsame : r record record') (i : Nat) :
    Option.Rel r (slots.get i) ((slots.set slot (some record')).get i) := by
  rw [get_set _ _ (lt_of_get_some hget)]
  by_cases hi : i = slot
  · rw [if_pos hi, hi, hget]
    exact Option.Rel.some hsame
  · rw [if_neg hi]
    exact rel_of_eq hr rfl

theorem touched_setProcess {record' : ProcessRecord} (h : t.locateProcess id = some (slot, record))
    (hsame : SameProcess record record') : Touched t (t.setProcess slot (some record')) :=
  ⟨rfl, rfl, rel_set SameProcess.refl (locateProcess_get h).2.1 hsame,
    fun _ => rel_of_eq SameThread.refl rfl⟩

variable {record' : ThreadRecord}

theorem touched_setThread {id : ThreadId} {record : ThreadRecord}
    (h : t.locateThread id = some (slot, record)) (hsame : SameThread record record') :
    Touched t (t.setThread slot (some record')) :=
  ⟨rfl, rfl, fun _ => rel_of_eq SameProcess.refl rfl,
    rel_set SameThread.refl (locateThread_get h).2.1 hsame⟩

/-! ### Requests that rewrite in place -/

/-- The program rewrites records in place, or fails and changes nothing. -/
def Quiet {α : Type} (x : TableM α) : Prop :=
  ∀ t, wp x (fun _ t' => Touched t t') (fun e t' => t' = t ∧ e ≠ .generationExhausted) t

section Rules

variable (Q : ProcessRecord → ProcessTable → Prop) (R : ThreadRecord → ProcessTable → Prop)
  (U : Unit → ProcessTable → Prop) (E : Error → ProcessTable → Prop) (t : ProcessTable)

theorem wp_located {f : ProcessTable → Except Error ρ} {found : Option (Nat × ρ)}
    (hok : ∀ record, f t = .ok record ↔ ∃ slot, found = some (slot, record))
    (herror : ∀ e, f t = .error e ↔ found = none ∧ e = .invalidId) (Q : ρ → ProcessTable → Prop) :
    wp (lift f) Q E t ↔ (∀ slot record, found = some (slot, record) → Q record t) ∧
      (found = none → E .invalidId t) := by
  simp only [wp_lift, hok, herror]
  constructor
  · rintro ⟨hok, herror⟩
    exact ⟨fun slot record h => hok record ⟨slot, h⟩, fun h => herror _ ⟨h, rfl⟩⟩
  · rintro ⟨hok, herror⟩
    refine ⟨fun record ⟨slot, h⟩ => hok slot record h, fun e ⟨h, he⟩ => ?_⟩
    rw [he]
    exact herror h

@[simp] theorem wp_process (id : ProcessId) :
    wp (lift (·.process id)) Q E t ↔
      (∀ slot record, t.locateProcess id = some (slot, record) → Q record t) ∧
      (t.locateProcess id = none → E .invalidId t) :=
  wp_located E t (fun _ => process_ok) (fun _ => process_error) Q

@[simp] theorem wp_thread (id : ThreadId) :
    wp (lift (·.thread id)) R E t ↔
      (∀ slot record, t.locateThread id = some (slot, record) → R record t) ∧
      (t.locateThread id = none → E .invalidId t) :=
  wp_located E t (fun _ => thread_ok) (fun _ => thread_error) R

@[simp] theorem wp_updateProcess (id : ProcessId) (f : ProcessRecord → ProcessRecord) :
    wp (updateProcess id f) U E t ↔
      (∀ slot record, t.locateProcess id = some (slot, record) →
        U () (t.setProcess slot (some (f record)))) ∧
      (t.locateProcess id = none → E .invalidId t) := by
  simp [updateProcess]

@[simp] theorem wp_updateThread (id : ThreadId) (f : ThreadRecord → ThreadRecord) :
    wp (updateThread id f) U E t ↔
      (∀ slot record, t.locateThread id = some (slot, record) →
        U () (t.setThread slot (some (f record)))) ∧
      (t.locateThread id = none → E .invalidId t) := by
  simp [updateThread]

variable {t}

theorem wp_updateProcess_of (h : t.locateProcess id = some (slot, record))
    (f : ProcessRecord → ProcessRecord) :
    wp (updateProcess id f) U E t ↔ U () (t.setProcess slot (some (f record))) := by
  rw [wp_updateProcess, h]
  simp

theorem wp_updateThread_of {id : ThreadId} {record : ThreadRecord}
    (h : t.locateThread id = some (slot, record)) (f : ThreadRecord → ThreadRecord) :
    wp (updateThread id f) U E t ↔ U () (t.setThread slot (some (f record))) := by
  rw [wp_updateThread, h]
  simp

end Rules

variable {e : Error}

/-- A check that does not fail for want of a generation. -/
abbrev Mild {α : Type} (x : Except Error α) : Prop := Fails x (· ≠ .generationExhausted)

theorem mild_process : Mild (t.process id) := fun _ h => by
  rw [(process_error.mp h).2]
  exact nofun

theorem mild_thread {id : ThreadId} : Mild (t.thread id) := fun _ h => by
  rw [(thread_error.mp h).2]
  exact nofun

variable {process : ProcessId}

theorem mild_fdEntry {fd : FileDescriptor} : Mild (fdEntry t process fd) := by
  unfold fdEntry
  cases fd.slot with
  | none => exact fails_error nofun
  | some slot =>
    refine fails_bind mild_process fun record => ?_
    cases record.fds.get slot with
    | none => exact fails_error nofun
    | some entry => exact nofun

section OneProcess

variable (process : ProcessId)

theorem quiet_openFd (openFile : UInt32) (readable writable : Bool) :
    Quiet (openFd process openFile readable writable) := by
  intro t
  simp [openFd]
  intro _ _ _ _ _ _ _ _ _ slot record h
  exact touched_setProcess h ⟨rfl, rfl, rfl, rfl, rfl⟩

theorem quiet_closeFd (fd : FileDescriptor) : Quiet (closeFd process fd) := by
  intro t
  simp only [closeFd, wp_bind, wp_lift, wp_updateProcess, ne_eq, reduceCtorEq, not_false_eq_true,
    and_true, implies_true, true_and]
  refine ⟨fun _ _ slot record h => ?_, fun e he => mild_fdEntry e he⟩
  exact touched_setProcess h ⟨rfl, rfl, rfl, rfl, rfl⟩

theorem quiet_setCloseOnExec (fd : FileDescriptor) (enabled : Bool) :
    Quiet (setCloseOnExec process fd enabled) := by
  intro t
  simp only [setCloseOnExec, wp_bind, wp_lift, wp_updateProcess, ne_eq, reduceCtorEq,
    not_false_eq_true, and_true, implies_true, true_and]
  refine ⟨fun _ _ slot record h => ?_, fun e he => mild_fdEntry e he⟩
  exact touched_setProcess h ⟨rfl, rfl, rfl, rfl, rfl⟩

theorem quiet_closeOnExec : Quiet (closeOnExec process) := by
  intro t
  simp [closeOnExec]
  intro _ _ _ slot record h
  exact touched_setProcess h ⟨rfl, rfl, rfl, rfl, rfl⟩

theorem quiet_raiseSignal (signal : UInt8) : Quiet (raiseSignal process signal) := by
  intro t
  simp [raiseSignal]
  intro _ slot record h
  exact touched_setProcess h ⟨rfl, rfl, rfl, rfl, rfl⟩

theorem quiet_raiseEvent (event : UInt8) : Quiet (raiseEvent process event) := by
  intro t
  simp [raiseEvent]
  intro _ slot record h
  exact touched_setProcess h ⟨rfl, rfl, rfl, rfl, rfl⟩

end OneProcess

theorem quiet_accountThread (thread : ThreadId) (ticks : UInt64) :
    Quiet (accountThread thread ticks) := by
  intro t
  simp [accountThread]
  intro _ _ _ _ slot record h
  exact touched_setThread h ⟨rfl, rfl, rfl, fun hexited => hexited⟩

/-! ### Scheduling -/

/-- A thread that is not exited may be given any state. -/
theorem sameThread_of_live {record : ThreadRecord} (hid : record'.id = record.id)
    (hprocess : record'.process = record.process) (hkind : record'.kind = record.kind)
    (hlive : record.state ≠ .exited) : SameThread record record' :=
  ⟨hid, hprocess, hkind, fun hexited => absurd hexited hlive⟩

variable {thread : ThreadId}

theorem locate_same {slot' : Nat} {record : ThreadRecord}
    (h : t.locateThread thread = some (slot, record))
    (h' : t.locateThread thread = some (slot', record')) : slot = slot' ∧ record = record' := by
  rw [h, Option.some.injEq, Prod.mk.injEq] at h'
  exact h'

section OneThread

variable (thread : ThreadId)

theorem blockThread_spec (sleeping : Bool) (t : ProcessTable) :
    wp (blockThread thread sleeping)
      (fun _ t' => ∃ slot record, t.locateThread thread = some (slot, record) ∧
        (record.state = .ready ∨ record.state = .running) ∧
        t' = t.setThread slot (some { record with
          state := if sleeping then .sleeping else .blocked }))
      (fun e t' => t' = t ∧ e ≠ .generationExhausted) t := by
  rcases h : t.locateThread thread with _ | ⟨slot, record⟩
  · simp [blockThread, h]
  · simp [blockThread, h, or_iff_not_imp_left]

theorem wakeThread_spec (t : ProcessTable) :
    wp (wakeThread thread)
      (fun _ t' => ∃ slot record, t.locateThread thread = some (slot, record) ∧
        (record.state = .blocked ∨ record.state = .sleeping) ∧
        t' = t.setThread slot (some { record with state := .ready }))
      (fun e t' => t' = t ∧ e ≠ .generationExhausted ∧ ∀ slot record,
        t.locateThread thread = some (slot, record) →
          ¬ (record.state = .blocked ∨ record.state = .sleeping)) t := by
  rcases h : t.locateThread thread with _ | ⟨slot, record⟩
  · simp [wakeThread, h]
  · simp [wakeThread, h, ← not_or]

theorem quiet_blockThread (sleeping : Bool) : Quiet (blockThread thread sleeping) := by
  intro t
  refine wp_post (blockThread_spec thread sleeping t) ?_
  rintro _ t' ⟨slot, record, h, hstate, rfl⟩
  refine touched_setThread h (sameThread_of_live rfl rfl rfl ?_)
  rcases hstate with hstate | hstate <;> simp [hstate]

theorem quiet_wakeThread : Quiet (wakeThread thread) := by
  intro t
  refine wp_mono (wakeThread_spec thread t) ?_ (fun _ _ h => ⟨h.1, h.2.1⟩)
  rintro _ t' ⟨slot, record, h, hstate, rfl⟩
  refine touched_setThread h (sameThread_of_live rfl rfl rfl ?_)
  rcases hstate with hstate | hstate <;> simp [hstate]

theorem quiet_preemptThread : Quiet (preemptThread thread) := by
  intro t
  rcases h : t.locateThread thread with _ | ⟨slot, record⟩
  · simp [preemptThread, h]
  · simp [preemptThread, h]
    intro hstate
    exact touched_setThread h (sameThread_of_live rfl rfl rfl (by simp [hstate]))

end OneThread

/-- The record of a thread that is given the processor. -/
def dispatched (record : ThreadRecord) : ThreadRecord :=
  { record with state := .running,
                contextSwitches := Word.saturatingAdd record.contextSwitches 1 }

/-- The record of a thread that gives it up. -/
def readied (record : ThreadRecord) : ThreadRecord := { record with state := .ready }

theorem switchTo_none_spec (to_ : ThreadId) (t : ProcessTable) :
    wp (switchTo none to_)
      (fun _ t' => ∃ slot record, t.locateThread to_ = some (slot, record) ∧
        record.state = .ready ∧ t' = t.setThread slot (some (dispatched record)))
      (fun e t' => t' = t ∧ e ≠ .generationExhausted ∧ ∀ slot record,
        t.locateThread to_ = some (slot, record) → record.state ≠ .ready) t := by
  rcases h : t.locateThread to_ with _ | ⟨slot, record⟩
  · simp [switchTo, h]
  · simp [switchTo, h, dispatched]

theorem locateThread_setThread {thread other : ThreadId} {slot' : Nat} {record : ThreadRecord}
    (h : t.locateThread thread = some (slot, record))
    (h' : t.locateThread other = some (slot', record')) (hne : thread ≠ other)
    (written : Option ThreadRecord) :
    slot ≠ slot' ∧ (t.setThread slot written).locateThread other = some (slot', record') := by
  have hslots : slot' ≠ slot := by
    rintro rfl
    rcases locateThread_get h with ⟨-, hget, hid⟩
    rcases locateThread_get h' with ⟨-, hget', hid'⟩
    rw [hget, Option.some.injEq] at hget'
    exact hne (by rw [← hid, hget', hid'])
  refine ⟨hslots.symm, ?_⟩
  rcases locate_eq_some.mp h' with ⟨hslot, hgeneration, hget, hname⟩
  refine locate_eq_some.mpr ⟨hslot, hgeneration, ?_, hname⟩
  exact (get_set_other t.threads written hslots).trans hget

theorem switchTo_some_spec (current to_ : ThreadId) (t : ProcessTable) :
    wp (switchTo (some current) to_)
      (fun _ t' => ∃ slot record slot' record', t.locateThread current = some (slot, record) ∧
        record.state = .running ∧ t.locateThread to_ = some (slot', record') ∧
        record'.state = .ready ∧ slot ≠ slot' ∧
        t' = (t.setThread slot (some (readied record))).setThread slot'
          (some (dispatched record')))
      (fun e t' => t' = t ∧ e ≠ .generationExhausted) t := by
  simp only [switchTo, wp_bind, wp_thread, wp_updateThread, wp_ite, wp_fail, wp_pure, ne_eq,
    reduceCtorEq, not_false_eq_true, and_self, and_true, implies_true, true_and, not_not,
    Option.some.injEq]
  intro hne slot record h hrunning slot' record' h' hready again recordAgain hagain
  rcases locate_same h hagain with ⟨rfl, rfl⟩
  rcases locateThread_setThread h h' hne (some (readied record)) with ⟨hslots, hlocate⟩
  -- The first write leaves the second thread where it was found.
  refine ⟨fun slot₁ record₁ h₁ => ?_, fun hnone => ?_⟩
  · rcases locate_same hlocate h₁ with ⟨rfl, rfl⟩
    exact ⟨slot, record, slot', record', h, hrunning, h', hready, hslots, rfl⟩
  · change (t.setThread slot (some (readied record))).locateThread to_ = none at hnone
    rw [hlocate] at hnone
    cases hnone

theorem rel_mono {r s : ρ → ρ → Prop} (h : ∀ a b, r a b → s a b) {a b : Option ρ}
    (hr : Option.Rel r a b) : Option.Rel s a b := by
  cases hr with
  | none => exact Option.Rel.none
  | some hab => exact Option.Rel.some (h _ _ hab)

theorem rel_trans (r : ρ → ρ → Prop) (hr : ∀ a b c, r a b → r b c → r a c) {a b c : Option ρ}
    (h : Option.Rel r a b) (h' : Option.Rel r b c) : Option.Rel r a c := by
  cases h with
  | none => exact h'
  | some hab =>
    cases h' with
    | some hbc => exact Option.Rel.some (hr _ _ _ hab hbc)

theorem SameProcess.trans {a b c : ProcessRecord} (h : SameProcess a b) (h' : SameProcess b c) :
    SameProcess a c :=
  ⟨h'.id.trans h.id, h'.parent.trans h.parent, h'.state.trans h.state,
    h'.exitStatus.trans h.exitStatus, h'.threads.trans h.threads⟩

theorem SameThread.trans {a b c : ThreadRecord} (h : SameThread a b) (h' : SameThread b c) :
    SameThread a c :=
  ⟨h'.id.trans h.id, h'.process.trans h.process, h'.kind.trans h.kind,
    fun hexited => h'.exited (h.exited hexited)⟩

theorem Touched.trans {t' t'' : ProcessTable} (h : Touched t t') (h' : Touched t' t'') :
    Touched t t'' :=
  ⟨h'.processGenerations.trans h.processGenerations,
    h'.threadGenerations.trans h.threadGenerations,
    fun i => rel_trans SameProcess (fun _ _ _ => SameProcess.trans) (h.processes i)
      (h'.processes i),
    fun i => rel_trans SameThread (fun _ _ _ => SameThread.trans) (h.threads i) (h'.threads i)⟩

theorem quiet_switchTo (from_ : Option ThreadId) (to_ : ThreadId) :
    Quiet (switchTo from_ to_) := by
  intro t
  cases from_ with
  | none =>
    refine wp_mono (switchTo_none_spec to_ t) ?_ (fun _ _ h => ⟨h.1, h.2.1⟩)
    rintro _ t' ⟨slot, record, h, hstate, rfl⟩
    exact touched_setThread h (sameThread_of_live rfl rfl rfl (by simp [hstate]))
  | some current =>
    refine wp_post (switchTo_some_spec current to_ t) ?_
    rintro _ t' ⟨slot, record, slot', record', h, hstate, h', hstate', hslots, rfl⟩
    have hne : current ≠ to_ := by
      rintro rfl
      exact hslots (locate_same h h').1
    have hlocate := (locateThread_setThread h h' hne (some (readied record))).2
    have hfirst : SameThread record (readied record) :=
      sameThread_of_live rfl rfl rfl (by simp [hstate])
    have hsecond : SameThread record' (dispatched record') :=
      sameThread_of_live rfl rfl rfl (by simp [hstate'])
    exact (touched_setThread h hfirst).trans (touched_setThread hlocate hsecond)

/-! ### Creating -/

theorem position_isNone {n : Nat} {slots : Slots n (Option ρ)} {i : Nat}
    (h : slots.position Option.isNone = some i) : i < n ∧ slots.get i = none := by
  rcases position_eq_some.mp h with ⟨hlt, hnone, -⟩
  exact ⟨hlt, Option.isNone_iff_eq_none.mp hnone⟩

/-- The record of a thread that has not been set going. -/
def createdThread (thread : ThreadId) (process : Option ProcessId) (kind : ThreadKind) :
    ThreadRecord :=
  { id := thread, process, state := .created, kind, runtimeTicks := 0, preemptions := 0,
    contextSwitches := 0 }

theorem allocateThread_kernel_spec (t : ProcessTable) :
    wp (allocateThread none .kernel)
      (fun thread t' => ∃ slot, slot < maxThreads ∧ t.threads.get slot = none ∧
        thread = ThreadId.new slot (t.threadGenerations.get slot) ∧
        t' = t.setThread slot (some (createdThread thread none .kernel)))
      (fun e t' => t' = t ∧ e ≠ .generationExhausted) t := by
  simp [allocateThread]
  intro slot hslot
  rcases position_isNone hslot with ⟨hlt, hfree⟩
  exact ⟨slot, hlt, hfree, rfl, rfl⟩

/-- The record of a process with its first thread. -/
def enrolled (record : ProcessRecord) (thread : ThreadId) : ProcessRecord :=
  { record with threads := record.threads.set 0 (some thread) }

/-- A thread for a process that has none yet. -/
theorem allocateThread_user_spec (hlocate : t.locateProcess process = some (slot, record))
    (hthreads : record.threads = Slots.replicate _ none) :
    wp (allocateThread (some process) .user)
      (fun thread t' => ∃ threadSlot, t.threads.position Option.isNone = some threadSlot ∧
        thread = ThreadId.new threadSlot (t.threadGenerations.get threadSlot) ∧
        t' = (t.setThread threadSlot (some (createdThread thread (some process) .user))).setProcess
          slot (some (enrolled record thread)))
      (fun e t' => t' = t ∧ e = .threadCapacity ∧ t.threads.position Option.isNone = none) t := by
  have hposition : record.threads.position Option.isNone = some 0 := by
    rw [hthreads]
    rfl
  simp only [allocateThread, wp_bind, wp_lookup, wp_process, wp_updateProcess, wp_pure, wp_read,
    wp_modify, true_and, and_true, hlocate, reduceCtorEq, false_implies,
    Option.some.injEq, Prod.mk.injEq, and_imp]
  refine ⟨?_, fun hfull => hfull⟩
  rintro threadSlot hthreadSlot _ _ rfl rfl
  simp [hposition]
  -- Writing the thread does not move the process.
  refine ⟨fun slot₂ record₂ h₂ => ?_, fun hnone => ?_⟩
  · change t.locateProcess process = some (slot₂, record₂) at h₂
    rw [hlocate, Option.some.injEq] at h₂
    rcases h₂ with ⟨rfl, rfl⟩
    exact ⟨threadSlot, hthreadSlot, rfl, rfl⟩
  · change t.locateProcess process = none at hnone
    rw [hlocate] at hnone
    cases hnone

theorem locateProcess_setProcess (hslot : slot < maxProcesses)
    (hid : record.id = ProcessId.new slot (t.processGenerations.get slot)) :
    (t.setProcess slot (some record)).locateProcess record.id = some (slot, record) :=
  locate_set (by simp [maxProcesses]) hslot (congrArg ProcessId.raw hid)

theorem locateThread_setThread_self {record : ThreadRecord} (hslot : slot < maxThreads)
    (hid : record.id = ThreadId.new slot (t.threadGenerations.get slot)) :
    (t.setThread slot (some record)).locateThread record.id = some (slot, record) :=
  locate_set (by simp [maxThreads]) hslot (congrArg ThreadId.raw hid)

theorem install_spec (parent : Option ProcessId) (credentials : Credentials)
    (hslot : slot < maxProcesses) (hfree : t.processes.get slot = none) :
    wp (install slot parent credentials)
      (fun result t' => ∃ threadSlot, t.threads.position Option.isNone = some threadSlot ∧
        result = (ProcessId.new slot (t.processGenerations.get slot),
          ThreadId.new threadSlot (t.threadGenerations.get threadSlot)) ∧
        t' = spawned t slot threadSlot parent credentials)
      (fun e t' => t' = t ∧ e = .threadCapacity ∧ t.threads.position Option.isNone = none) t := by
  simp only [install, wp_bind, wp_read, wp_modify, wp_attempt]
  let process := ProcessId.new slot (t.processGenerations.get slot)
  have hlocate : (t.setProcess slot (some (ProcessRecord.new process parent
      credentials))).locateProcess process = some (slot, _) := locateProcess_setProcess hslot rfl
  refine wp_mono (allocateThread_user_spec hlocate rfl) ?_ ?_
  · rintro thread t₁ ⟨threadSlot, hposition, hid, ht₁⟩
    have hthreadSlot := (position_isNone hposition).1
    -- Both records are where they were just written.
    have hprocess : t₁.locateProcess process = some (slot, enrolled (ProcessRecord.new process
        parent credentials) thread) := by
      rw [ht₁]
      exact locateProcess_setProcess hslot rfl
    rw [wp_updateProcess_of _ _ hprocess]
    have hthread₁ : (t₁.setProcess slot (some (firstRecord process parent credentials
        thread))).locateThread thread = some (threadSlot, createdThread thread (some process)
          .user) := by
      rw [ht₁, hid]
      exact locateThread_setThread_self hthreadSlot rfl
    change wp (updateThread thread _) _ _ (t₁.setProcess slot (some (firstRecord process parent
      credentials thread)))
    rw [wp_updateThread_of _ _ hthread₁]
    refine ⟨threadSlot, hposition, ?_, ?_⟩
    · rw [hid]
      rfl
    · rw [ht₁, hid]
      simp only [ProcessTable.setProcess, ProcessTable.setThread, set_set]
      rfl
  · rintro e t₁ ⟨rfl, he⟩
    -- Taking the record back leaves the slot as free as it was.
    refine ⟨?_, he⟩
    change { t with processes := (t.processes.set slot _).set slot none } = t
    rw [set_set, ← hfree, set_get]

theorem createInit_spec (t : ProcessTable) :
    wp createInit (fun result t' => Change t (.spawned none result.1 result.2) t')
      (fun e t' => t' = t ∧ e ≠ .generationExhausted) t := by
  simp only [createInit, wp_bind, wp_read, wp_ite, wp_fail, Bool.not_eq_true,
    Option.isSome_eq_false_iff, Option.isNone_iff_eq_none]
  refine ⟨fun _ => by simp, fun hfree => ?_⟩
  refine wp_mono (install_spec none Credentials.bootstrap (by simp [maxProcesses]) hfree)
    ?_ (fun _ _ h => ⟨h.1, by simp [h.2.1]⟩)
  rintro _ t' ⟨threadSlot, hposition, rfl, rfl⟩
  rcases position_isNone hposition with ⟨hthreadSlot, hthread⟩
  exact Change.spawned none _ (by simp [maxProcesses]) hfree hthreadSlot hthread (fun _ => rfl)
    (fun p hp => by cases hp)

theorem spawnChild_spec (parent : ProcessId) (credentials : Credentials) (t : ProcessTable) :
    wp (spawnChild parent credentials)
      (fun result t' => Change t (.spawned (some parent) result.1 result.2) t')
      (fun e t' => t' = t ∧ e ≠ .generationExhausted) t := by
  simp only [spawnChild, wp_bind, wp_process, wp_ite, wp_fail, wp_lookup, ne_eq, not_not]
  refine ⟨fun slot₀ record hparent => ⟨fun _ => by simp, fun hrunning => ?_⟩, fun _ => by simp⟩
  refine ⟨fun slot hslot => ?_, fun _ => by simp⟩
  rcases position_isNone hslot with ⟨hlt, hfree⟩
  refine wp_mono (install_spec (some parent) credentials hlt hfree) ?_
    (fun _ _ h => ⟨h.1, by simp [h.2.1]⟩)
  rintro _ t' ⟨threadSlot, hposition, rfl, rfl⟩
  rcases position_isNone hposition with ⟨hthreadSlot, hthread⟩
  refine Change.spawned (some parent) _ hlt hfree hthreadSlot hthread (fun hp => by cases hp) ?_
  rintro p hp
  cases hp
  exact ⟨record, process_ok.mpr ⟨slot₀, hparent⟩, hrunning⟩

theorem spawnKernelThread_spec (t : ProcessTable) :
    wp spawnKernelThread
      (fun thread t' => ∃ slot, slot < maxThreads ∧ t.threads.get slot = none ∧
        thread = ThreadId.new slot (t.threadGenerations.get slot) ∧
        t' = t.setThread slot (some (firstThread thread none .kernel)))
      (fun e t' => t' = t ∧ e ≠ .generationExhausted) t := by
  rw [spawnKernelThread, wp_bind]
  refine wp_post (allocateThread_kernel_spec t) ?_
  rintro thread t₁ ⟨slot, hslot, hfree, rfl, rfl⟩
  have hthread : (t.setThread slot (some (createdThread
      (ThreadId.new slot (t.threadGenerations.get slot)) none .kernel))).locateThread
        (ThreadId.new slot (t.threadGenerations.get slot)) = some (slot, _) :=
    locateThread_setThread_self hslot rfl
  rw [wp_bind, wp_updateThread_of _ _ hthread]
  refine ⟨slot, hslot, hfree, rfl, ?_⟩
  simp only [ProcessTable.setThread, set_set]
  rfl

/-! ### Ending -/

theorem locateProcess_congr {t' : ProcessTable} {record' : ProcessRecord}
    (h : t.locateProcess id = some (slot, record))
    (hgenerations : t'.processGenerations = t.processGenerations)
    (hget : t'.processes.get slot = some record') (hid : record'.id = record.id) :
    t'.locateProcess id = some (slot, record') := by
  rcases locate_eq_some.mp h with ⟨hslot, hgeneration, -, hname⟩
  refine locate_eq_some.mpr ⟨hslot, ?_, hget, ?_⟩
  · rw [hgenerations]
    exact hgeneration
  · rw [hid]
    exact hname

theorem adopt_id (process : ProcessId) (record : ProcessRecord) :
    (adopt process record).id = record.id := by
  unfold adopt
  split <;> rfl

/-- The record of a process on its way out. -/
def exiting (record : ProcessRecord) (status : Int32) : ProcessRecord :=
  { record with state := .exiting, exitStatus := some status, fds := Slots.replicate _ none }

theorem bury_eq (process : ProcessId) (status : Int32) (record : ProcessRecord) :
    { adopt process (exiting record status) with state := .zombie }
      = bury process status record := by
  unfold bury adopt exiting
  split <;> rfl

theorem exit_running (status : Int32) (hinit : process ≠ ProcessId.init)
    (h : t.locateProcess process = some (slot, record)) (hrunning : record.state = .running) :
    wp (exit process status) (fun _ t' => t' = exited t process slot record status)
      (fun _ _ => False) t := by
  simp only [exit, wp_bind, wp_ite, wp_fail, wp_process, wp_modify, hinit, h, Option.some.injEq,
    Prod.mk.injEq, and_imp, reduceCtorEq, false_implies, true_and, and_true, not_false_eq_true,
    forall_const]
  rintro _ _ rfl rfl
  refine ⟨fun hc => hc hrunning, fun _ => ?_⟩
  have hlt := (locateProcess_get h).1
  rw [wp_updateProcess_of _ _ h]
  let t₁ := reparent process (exitThreads process (t.setProcess slot (some (exiting record status))))
  change wp (updateProcess process _) _ _ t₁
  -- The two loops leave the record in its slot, its parent perhaps changed.
  have hslots : t₁.processes = (t.processes.map (Option.map (adopt process))).set slot
      (some (adopt process (exiting record status))) :=
    map_set (Option.map (adopt process)) t.processes slot (some (exiting record status))
  have hagain : t₁.locateProcess process = some (slot, adopt process (exiting record status)) := by
    refine locateProcess_congr h rfl ?_ (adopt_id process (exiting record status))
    rw [hslots, get_set_self _ _ hlt]
  rw [wp_updateProcess_of _ _ hagain, bury_eq]
  refine ProcessTable.ext ?_ rfl rfl rfl
  change t₁.processes.set slot _ = _
  rw [hslots, set_set]
  rfl

theorem exit_spec (process : ProcessId) (status : Int32) (t : ProcessTable) :
    wp (exit process status)
      (fun _ t' => ∃ slot record, process ≠ ProcessId.init ∧
        t.locateProcess process = some (slot, record) ∧ record.state = .running ∧
        t' = exited t process slot record status)
      (fun e t' => t' = t ∧ e ≠ .generationExhausted) t := by
  by_cases hdone : process ≠ ProcessId.init ∧ ∃ slot record,
      t.locateProcess process = some (slot, record) ∧ record.state = .running
  · rcases hdone with ⟨hinit, slot, record, h, hrunning⟩
    exact wp_mono (exit_running status hinit h hrunning)
      (fun _ _ hexited => ⟨slot, record, hinit, h, hrunning, hexited⟩) (fun _ _ hc => hc.elim)
  · simp [exit]
    intro hinit slot record h hrunning
    exact absurd ⟨hinit, slot, record, h, hrunning⟩ hdone

/-- The thread is not in the slot of its name. -/
def Missing (t : ProcessTable) (thread : ThreadId) : Prop :=
  ∀ slot, thread.slot = some slot → ∀ record, t.threads.get slot = some record →
    record.id ≠ thread

theorem freeThread_spec (thread : ThreadId) (t : ProcessTable) :
    wp (freeThread thread)
      (fun _ t' => ∃ slot record generation, thread.slot = some slot ∧
        t.threads.get slot = some record ∧ record.id = thread ∧
        Arena.checkedSucc (t.threadGenerations.get slot) = some generation ∧
        t' = (t.setThread slot none).setThreadGeneration slot generation)
      (fun e t' => (t' = t ∧ e = .invalidId ∧ Missing t thread) ∨ (e = .generationExhausted ∧
        ∃ slot record, thread.slot = some slot ∧ t.threads.get slot = some record ∧
          record.id = thread ∧ Arena.checkedSucc (t.threadGenerations.get slot) = none ∧
          t' = t.setThread slot none)) t := by
  simp only [freeThread, wp_bind, wp_lookup, wp_read, wp_ite, wp_fail, wp_modify, ne_eq,
    reduceCtorEq, true_and, not_not, false_and, and_false, or_false, false_or,
    Option.map_eq_some_iff, forall_exists_index, and_imp]
  refine ⟨fun slot hslot => ⟨fun hnot slot' hslot' record hget hid => hnot ?_,
    fun record hget hid => ?_⟩, fun hnone slot hslot => ?_⟩
  · rw [hslot, Option.some.injEq] at hslot'
    exact ⟨record, hslot' ▸ hget, hid⟩
  · refine ⟨fun generation hgeneration => ⟨slot, record, generation, hslot, hget, hid, hgeneration,
      rfl⟩, fun hgeneration => ⟨slot, record, hslot, hget, hid, hgeneration, rfl⟩⟩
  · rw [hnone] at hslot
    cases hslot

variable {child : Option ProcessId}

theorem waitCandidate_ok {parent candidate : ProcessId}
    (hnamed : Arena.Named t.processes t.processGenerations (·.id.raw))
    (h : waitCandidate parent child t = .ok candidate) :
    ∃ slot record, t.locateProcess candidate = some (slot, record) ∧
      record.parent = some parent ∧ record.state = .zombie := by
  unfold waitCandidate at h
  cases child with
  | some child =>
    rcases except_bind_ok h with ⟨record, hrecord, hrest⟩
    rcases process_ok.mp hrecord with ⟨slot, hlocate⟩
    by_cases hnot : record.parent ≠ some parent ∨ record.state ≠ .zombie
    · rw [if_pos hnot] at hrest
      cases hrest
    · rw [if_neg hnot] at hrest
      cases hrest
      simp at hnot
      exact ⟨slot, record, hlocate, hnot⟩
  | none =>
    cases hfind : t.processes.entries.find? (fun record =>
        decide (record.parent = some parent) && decide (record.state = .zombie)) with
    | none =>
      rw [hfind] at h
      cases h
    | some record =>
      rw [hfind] at h
      cases h
      rcases mem_entries.mp (List.mem_of_find?_eq_some hfind) with ⟨slot, hget⟩
      have htest := List.find?_some hfind
      simp at htest
      refine ⟨slot, record, ?_, htest⟩
      exact (locate_iff (by simp [maxProcesses]) hnamed).mpr ⟨hget, rfl⟩

theorem mild_waitCandidate {parent : ProcessId} : Mild (waitCandidate parent child t) := by
  unfold waitCandidate
  cases child with
  | some child =>
    refine fails_bind mild_process fun record => ?_
    split
    · exact fails_error nofun
    · exact nofun
  | none =>
    dsimp only
    split
    · exact fails_error nofun
    · exact nofun

/-- Reaping a zombie whose record lists one thread. -/
theorem reap_spec {child : ProcessId} (hlocate : t.locateProcess child = some (slot, record))
    (hzombie : record.state = .zombie) (hlists : record.threads.entries = [thread]) :
    wp (reap child)
      (fun _ t' => ∃ threadSlot threadRecord generation threadGeneration,
        thread.slot = some threadSlot ∧ t.threads.get threadSlot = some threadRecord ∧
        threadRecord.id = thread ∧
        Arena.checkedSucc (t.threadGenerations.get threadSlot) = some threadGeneration ∧
        Arena.checkedSucc (t.processGenerations.get slot) = some generation ∧
        t' = reaped t slot threadSlot generation threadGeneration)
      (fun e t' => (t' = t ∧ e = .invalidId ∧ Missing t thread) ∨ (e = .generationExhausted ∧
        ∃ threadSlot threadRecord, thread.slot = some threadSlot ∧
          t.threads.get threadSlot = some threadRecord ∧ threadRecord.id = thread ∧
          ((Arena.checkedSucc (t.threadGenerations.get threadSlot) = none ∧
              t' = t.setThread threadSlot none) ∨
            ∃ threadGeneration,
              Arena.checkedSucc (t.threadGenerations.get threadSlot) = some threadGeneration ∧
              Arena.checkedSucc (t.processGenerations.get slot) = none ∧
              t' = reaped t slot threadSlot (t.processGenerations.get slot) threadGeneration))) t := by
  have hslot : child.slot = some slot := (locate_eq_some.mp hlocate).1
  simp only [reap, wp_bind, wp_lookup, hslot, wp_process, hlocate, wp_ite, wp_fail, wp_modify,
    Option.some.injEq, Prod.mk.injEq, forall_eq', and_imp, reduceCtorEq, false_implies, and_true]
  rintro _ _ rfl rfl
  simp only [hzombie, ne_eq, not_true_eq_false, false_implies, true_and, not_false_eq_true,
    forall_const, hlists, freeThreads, wp_bind, wp_pure]
  refine wp_mono (freeThread_spec thread t) ?_ ?_
  · rintro _ t₁ ⟨threadSlot, threadRecord, threadGeneration, hts, hget, hid, hthread, rfl⟩
    refine ⟨fun generation hprocess => ?_, fun hprocess => ?_⟩
    · exact ⟨threadSlot, threadRecord, generation, threadGeneration, hts, hget, hid, hthread,
        hprocess, rfl⟩
    · refine .inr ⟨threadSlot, threadRecord, hts, hget, hid, .inr ⟨threadGeneration,
        hthread, hprocess, ?_⟩⟩
      -- Writing the generation back is no change.
      refine ProcessTable.ext rfl ?_ rfl rfl
      exact (set_get t.processGenerations slot).symm
  · rintro e t₁ (hsame | ⟨he, threadSlot, threadRecord, hts, hget, hid, hthread, rfl⟩)
    · exact .inl hsame
    · exact .inr ⟨he, threadSlot, threadRecord, hts, hget, hid, .inl ⟨hthread, rfl⟩⟩

/-- Every process has exactly one thread on its list. -/
def SingleThreaded (t : ProcessTable) : Prop :=
  ∀ i record, t.processes.get i = some record → ∃ thread, record.threads.entries = [thread]

/-- A thread was freed that a zombie child of the process lists. -/
def Freed (t : ProcessTable) (parent : ProcessId) (t' : ProcessTable) : Prop :=
  ∃ child status slot record threadSlot threadRecord,
    Reapable t parent child status slot record threadSlot threadRecord ∧
      t'.threads = t.threads.set threadSlot none

theorem wait_spec (hnamed : Arena.Named t.processes t.processGenerations (·.id.raw))
    (hsingle : SingleThreaded t) (parent : ProcessId) (child : Option ProcessId) :
    wp (wait parent child)
      (fun result t' => Change t (.reaped parent result.1 result.2) t' ∧ Freed t parent t')
      (fun e t' => (t' = t ∧ e ≠ .generationExhausted) ∨
        (e = .generationExhausted ∧ Change t .torn t' ∧ Freed t parent t')) t := by
  rw [wait, wp_bind, wp_process]
  refine ⟨fun _ _ _ => ?_, fun _ => .inl ⟨rfl, by simp⟩⟩
  rw [wp_bind, wp_lift]
  refine ⟨fun candidate hcandidate => ?_, fun e he => .inl ⟨rfl, mild_waitCandidate e he⟩⟩
  rcases waitCandidate_ok hnamed hcandidate with ⟨slot, record, hlocate, hparent, hzombie⟩
  rw [wp_bind, wp_process, hlocate]
  simp only [Option.some.injEq, Prod.mk.injEq, and_imp, reduceCtorEq, false_implies, and_true]
  rintro _ _ rfl rfl
  rw [wp_bind, wp_lookup]
  refine ⟨fun status hstatus => ?_, fun _ => .inl ⟨rfl, by simp⟩⟩
  rw [wp_bind]
  rcases hsingle slot record (locateProcess_get hlocate).2.1 with ⟨thread, hlists⟩
  refine wp_mono (reap_spec hlocate hzombie hlists) ?_ ?_
  · rintro _ t' ⟨threadSlot, threadRecord, generation, threadGeneration, hts, hget, rfl, hthread,
      hprocess, rfl⟩
    have hreapable : Reapable t parent candidate status slot record threadSlot threadRecord :=
      ⟨hlocate, hparent, hzombie, hstatus, hlists, hts, hget⟩
    exact ⟨Change.reaped hreapable hthread hprocess, _, _, _, _, _, _, hreapable, rfl⟩
  · rintro e t' (⟨hsame, he, -⟩ | ⟨he, threadSlot, threadRecord, hts, hget, rfl, hwhy⟩)
    · exact .inl ⟨hsame, by simp [he]⟩
    · have hreapable : Reapable t parent candidate status slot record threadSlot threadRecord :=
        ⟨hlocate, hparent, hzombie, hstatus, hlists, hts, hget⟩
      refine .inr ⟨he, ?_⟩
      rcases hwhy with ⟨hthread, rfl⟩ | ⟨threadGeneration, hthread, hprocess, rfl⟩
      · exact ⟨Change.tornThread hreapable hthread, _, _, _, _, _, _, hreapable, rfl⟩
      · exact ⟨Change.tornProcess hreapable hthread hprocess, _, _, _, _, _, _, hreapable, rfl⟩

/-! ### Every request -/

theorem mild_query {question : Query} : Mild (question.ask t) := by
  cases question with
  | fdInfo process fd | fdAccess process fd => exact fails_bind mild_fdEntry fun _ => nofun
  | signalPending process signal =>
    simp only [Query.ask]
    split
    · exact fails_error nofun
    · exact fails_bind mild_process fun _ => nofun
  | credentials process | processState process => exact fails_bind mild_process fun _ => nofun
  | authorize process capability =>
    refine fails_bind mild_process fun record => fails_bind ?_ fun _ => nofun
    unfold Credentials.authorize
    split
    · exact nofun
    · exact fails_error nofun
  | threadState thread | threadKind thread | threadOwner thread | threadAccounting thread =>
    exact fails_bind mild_thread fun _ => nofun

/-- A quiet program returns with a quiet change, whatever its value is made
    into. -/
theorem perform_quiet {α : Type} {x : TableM α} (hx : Quiet x) {call : Call} (f : α → Reply)
    (hevent : ∀ a, eventOf call (.ok (f a)) = .quiet) (t : ProcessTable) :
    wp (x >>= fun a => pure (f a)) (fun reply t' => Change t (eventOf call (.ok reply)) t')
      (fun e t' => (t' = t ∧ e ≠ .generationExhausted) ∨
        (e = .generationExhausted ∧ Change t .torn t')) t := by
  rw [wp_bind]
  refine wp_mono (hx t) (fun a t' htouched => ?_) (fun e t' h => .inl h)
  rw [wp_pure, hevent]
  exact Change.quiet htouched

theorem perform_spec (hnamed : Arena.Named t.processes t.processGenerations (·.id.raw))
    (hsingle : SingleThreaded t) (call : Call) :
    wp call.perform (fun reply t' => Change t (eventOf call (.ok reply)) t')
      (fun e t' => (t' = t ∧ e ≠ .generationExhausted) ∨
        (e = .generationExhausted ∧ Change t .torn t')) t := by
  cases call with
  | createInit =>
    rw [Call.perform, wp_bind]
    exact wp_mono (createInit_spec t) (fun _ _ h => h) (fun _ _ h => .inl h)
  | spawnChild parent credentials =>
    rw [Call.perform, wp_bind]
    exact wp_mono (spawnChild_spec parent credentials t) (fun _ _ h => h)
      (fun _ _ h => .inl h)
  | spawnKernelThread =>
    rw [Call.perform, wp_bind]
    refine wp_mono (spawnKernelThread_spec t) ?_ (fun _ _ h => .inl h)
    rintro _ t' ⟨slot, hslot, hfree, rfl, rfl⟩
    exact Change.kernel hslot hfree
  | exit process status =>
    rw [Call.perform, wp_bind]
    refine wp_mono (exit_spec process status t) ?_ (fun _ _ h => .inl h)
    rintro _ t' ⟨slot, record, hinit, hlocate, hrunning, rfl⟩
    exact Change.exited status hinit hlocate hrunning
  | wait parent child =>
    rw [Call.perform, wp_bind]
    refine wp_mono (wait_spec hnamed hsingle parent child) (fun _ _ h => h.1) ?_
    rintro e t' (hsame | ⟨he, hchange, -⟩)
    · exact .inl hsame
    · exact .inr ⟨he, hchange⟩
  | openFd process openFile readable writable =>
    exact perform_quiet (quiet_openFd process openFile readable writable) .fd (fun _ => rfl) t
  | closeFd process fd =>
    exact perform_quiet (quiet_closeFd process fd) (fun _ => .done) (fun _ => rfl) t
  | setCloseOnExec process fd enabled =>
    exact perform_quiet (quiet_setCloseOnExec process fd enabled) (fun _ => .done)
      (fun _ => rfl) t
  | closeOnExec process =>
    exact perform_quiet (quiet_closeOnExec process) .closed (fun _ => rfl) t
  | raiseSignal process signal =>
    exact perform_quiet (quiet_raiseSignal process signal) (fun _ => .done) (fun _ => rfl) t
  | raiseEvent process event =>
    exact perform_quiet (quiet_raiseEvent process event) (fun _ => .done) (fun _ => rfl) t
  | accountThread thread ticks =>
    exact perform_quiet (quiet_accountThread thread ticks) (fun _ => .done) (fun _ => rfl) t
  | blockThread thread sleeping =>
    exact perform_quiet (quiet_blockThread thread sleeping) (fun _ => .done) (fun _ => rfl) t
  | wakeThread thread =>
    exact perform_quiet (quiet_wakeThread thread) (fun _ => .done) (fun _ => rfl) t
  | preemptThread thread =>
    exact perform_quiet (quiet_preemptThread thread) (fun _ => .done) (fun _ => rfl) t
  | switchTo from_ to_ =>
    exact perform_quiet (quiet_switchTo from_ to_) .switched (fun _ => rfl) t
  | query question =>
    rw [Call.perform, wp_lift]
    exact ⟨fun reply _ => Change.quiet (Touched.refl t),
      fun e he => .inl ⟨rfl, mild_query e he⟩⟩

/-- The event of a failure. -/
theorem eventOf_error (call : Call) (e : Error) :
    eventOf call (.error e) = if e = .generationExhausted then .torn else .quiet := by
  cases call <;> cases e <;> rfl

section Step

variable {t : ProcessTable}
  (hnamed : Arena.Named t.processes t.processGenerations (·.id.raw)) (hsingle : SingleThreaded t)

include hnamed hsingle

/-- A request makes the change its event names. -/
theorem step_change (call : Call) : Change t (event t call) (step t call) := by
  have hspec := perform_spec hnamed hsingle call
  unfold event outcome step
  rcases hperform : call.perform t with ⟨e | reply, t'⟩
  · rcases wp_error hperform hspec with ⟨rfl, he⟩ | ⟨rfl, hchange⟩
    · rw [eventOf_error, if_neg he]
      exact Change.quiet (Touched.refl t')
    · rw [eventOf_error]
      exact hchange
  · have hchange := wp_ok hperform hspec
    exact hchange

/-- A request that fails without running out of generations changes
    nothing. -/
theorem failed_step {call : Call} (h : outcome t call = .error e) (he : e ≠ .generationExhausted) :
    step t call = t := by
  have hspec := perform_spec hnamed hsingle call
  have hperform : call.perform t = (.error e, step t call) := Prod.ext h rfl
  rcases wp_error hperform hspec with ⟨hsame, -⟩ | ⟨hc, -⟩
  · exact hsame
  · exact absurd hc he

end Step

end Process

end Norx
