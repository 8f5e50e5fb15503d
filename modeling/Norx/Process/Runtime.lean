import Norx.Process.Invariant

/-!
# The Current Thread

The runtime keeps the process table together with three fields beside it: the
thread of init, the current process and the current thread. The table knows
nothing of them, so they agree with it only because every operation changes
both sides together, along every way out of it.

`Attends` is that agreement: the current thread is the one that is running,
and its owner the current process; with no current thread, no thread is
running. Between the steps of an operation it holds for what the fields are
about to become. `sleep_current` puts the current thread to sleep and may find
nothing to switch to; it then wakes the thread and switches to it again, which
has to succeed, since the fields still name it.

Init exits in a way of its own. `exit` does not take it, so only its thread is
marked, and the process goes on without one.

## Theorems

* `attends_block`, `attends_dispatch`, `attends_keep`, `attends_spawned`,
  `attends_exited`, `attends_freed`: What happens to the running thread.
* `coherent_step`: Every operation keeps the two in agreement.
* `single_current_thread`: At most one thread is running, and it is current.
-/

namespace Norx

namespace Process

open Fallible

structure Runtime where
  table : ProcessTable
  initThread : Option ThreadId
  currentProcess : Option ProcessId
  currentThread : Option ThreadId

def Runtime.new : Runtime :=
  { table := ProcessTable.new, initThread := none, currentProcess := none, currentThread := none }

/-- A program over the runtime. -/
abbrev RuntimeM := Fallible Runtime Error

/-- A program over the table, on the table of the runtime. -/
def onTable {α : Type} (x : TableM α) : RuntimeM α :=
  within Runtime.table (fun r t => { r with table := t }) x

/-! ### Operations -/

def setCurrent (thread : ThreadId) : RuntimeM Unit := do
  modify ({ · with currentThread := some thread })
  let record ← onTable (lift (·.thread thread))
  modify ({ · with currentProcess := record.process })

def initRuntime : RuntimeM Bool := do
  modify (fun _ => Runtime.new)
  match (← attempt (onTable createInit)) with
  | .error _ => return false
  | .ok (process, thread) =>
    match (← attempt (onTable (switchTo none thread))) with
    | .error _ => return false
    | .ok _ =>
      modify ({ · with currentProcess := some process, currentThread := some thread,
                       initThread := some thread })
      return true

def spawnChildCurrent (credentials : Credentials) : RuntimeM (ProcessId × ThreadId) := do
  let parent ← lookup .invalidState (·.currentProcess)
  onTable (spawnChild parent credentials)

def switchToUser (process : ProcessId) (thread : ThreadId) : RuntimeM Unit := do
  let current ← lookup .invalidState (·.currentThread)
  let record ← onTable (lift (·.thread thread))
  if record.process ≠ some process ∨ record.kind ≠ .user then fail .invalidState
  let _ ← onTable (switchTo (some current) thread)
  setCurrent thread

def restoreInit : RuntimeM Unit := do
  if (← read (·.currentThread.isSome)) = true then fail .invalidState
  let initThread ← lookup .invalidState (·.initThread)
  let _ ← onTable (switchTo none initThread)
  modify ({ · with currentThread := some initThread, currentProcess := some ProcessId.init })

def exitCurrent (status : Int32) : RuntimeM Unit := do
  let process ← lookup .invalidState (·.currentProcess)
  let thread ← lookup .invalidState (·.currentThread)
  if process = ProcessId.init then
    onTable (updateThread thread (fun record => { record with state := .exited }))
  else
    onTable (exit process status)
  modify ({ · with currentProcess := none, currentThread := none })

def waitCurrent (child : Option UInt32) : RuntimeM (UInt32 × Int32) := do
  let parent ← lookup .invalidState (·.currentProcess)
  let (process, status) ← onTable (wait parent (child.map ProcessId.fromRaw))
  return (process.raw, status)

def yieldCurrent : RuntimeM Unit := do
  let current ← lookup .invalidState (·.currentThread)
  match (← read (fun r => pickReady r.table)) with
  | none => return ()
  | some next =>
    if (← read (fun r => decide (r.currentProcess ≠ some ProcessId.init ∧
        r.initThread = some next))) = true then return ()
    else
      let _ ← onTable (switchTo (some current) next)
      setCurrent next

def sleepCurrent : RuntimeM Unit := do
  let current ← lookup .invalidState (·.currentThread)
  onTable (blockThread current true)
  match (← read (fun r => pickReady r.table)) with
  | none =>
    onTable (wakeThread current)
    let _ ← onTable (switchTo none current)
    return ()
  | some next =>
    modify ({ · with currentThread := none, currentProcess := none })
    let _ ← onTable (switchTo none next)
    setCurrent next

/-- An operation of the runtime. -/
inductive RuntimeCall where
  | initRuntime
  | spawnChildCurrent (credentials : Credentials)
  | switchToUser (process : ProcessId) (thread : ThreadId)
  | restoreInit
  | exitCurrent (status : Int32)
  | waitCurrent (child : Option UInt32)
  | yieldCurrent
  | sleepCurrent

/-- What an operation returns. -/
inductive Answer where
  | done
  | started (ok : Bool)
  | created (process : ProcessId) (thread : ThreadId)
  | waited (process : UInt32) (status : Int32)
  deriving DecidableEq, Repr

def RuntimeCall.perform : RuntimeCall → RuntimeM Answer
  | initRuntime => do return .started (← Process.initRuntime)
  | spawnChildCurrent credentials => do
    let (process, thread) ← Process.spawnChildCurrent credentials
    return .created process thread
  | switchToUser process thread => do
    Process.switchToUser process thread
    return .done
  | restoreInit => do
    Process.restoreInit
    return .done
  | exitCurrent status => do
    Process.exitCurrent status
    return .done
  | waitCurrent child => do
    let (process, status) ← Process.waitCurrent child
    return .waited process status
  | yieldCurrent => do
    Process.yieldCurrent
    return .done
  | sleepCurrent => do
    Process.sleepCurrent
    return .done

/-- What an operation returns. -/
def Runtime.outcome (r : Runtime) (call : RuntimeCall) : Except Error Answer := (call.perform r).1

/-- The runtime an operation leaves behind. -/
def Runtime.step (r : Runtime) (call : RuntimeCall) : Runtime := (call.perform r).2

/-! ### The running thread -/

/-- The table runs this thread, which belongs to this process, and no other; or
    it runs none. -/
structure Attends (t : ProcessTable) (thread : Option ThreadId) (process : Option ProcessId) :
    Prop where
  running : ∀ record, t.threads.Holds record → (record.state = .running ↔ thread = some record.id)
  present : ∀ id, thread = some id →
    ∃ record, t.threads.Holds record ∧ record.id = id ∧ record.process = process
  idle : thread = none → process = none

/-- The thread belongs to init. -/
def Anchored (t : ProcessTable) (thread : ThreadId) : Prop :=
  ∃ record, t.threads.Holds record ∧ record.id = thread ∧ record.process = some ProcessId.init

/-- The table and the fields beside it agree. -/
structure Coherent (r : Runtime) : Prop where
  inv : Inv r.table
  attends : Attends r.table r.currentThread r.currentProcess
  anchored : ∀ thread, r.initThread = some thread → Anchored r.table thread

variable {record new : ThreadRecord} {thread : ThreadId} {slot : Nat} {process : Option ProcessId}
  {t' : ProcessTable} {current : ThreadId}

section Running

variable {t : ProcessTable} (h : Inv t)

include h

theorem thread_unique {record' : ThreadRecord} (hr : t.threads.Holds record)
    (hr' : t.threads.Holds record') (hid : record.id = record'.id) : record = record' :=
  Arena.holds_unique (by simp [maxThreads]) h.threadsNamed hr hr' (congrArg ThreadId.raw hid)

theorem holds_setThread (hlocate : t.locateThread thread = some (slot, record)) {r : ThreadRecord} :
    (t.setThread slot (some new)).threads.Holds r ↔
      r = new ∨ t.threads.Holds r ∧ r.id ≠ thread := by
  rcases locateThread_get hlocate with ⟨-, hget, rfl⟩
  refine (Arena.holds_replace (by simp [maxThreads]) h.threadsNamed hget).trans ?_
  exact or_congr_right (and_congr_right fun _ => not_congr ⟨ThreadId.ext, congrArg ThreadId.raw⟩)

/-- The running thread stops running. -/
theorem attends_block (ha : Attends t (some thread) process)
    (hlocate : t.locateThread thread = some (slot, record)) (hnew : new.state ≠ .running) :
    Attends (t.setThread slot (some new)) none none where
  running := by
    intro r hr
    simp
    rcases (holds_setThread h hlocate).mp hr with rfl | ⟨hold, hne⟩
    · exact hnew
    · intro hrunning
      exact hne (Option.some.inj ((ha.running r hold).mp hrunning)).symm
  present := fun id hid => by cases hid
  idle := fun _ => rfl

/-- A thread starts running when none was. -/
theorem attends_dispatch (ha : Attends t none none)
    (hlocate : t.locateThread thread = some (slot, record)) (hid : new.id = thread)
    (hnew : new.state = .running) :
    Attends (t.setThread slot (some new)) (some thread) new.process where
  running := by
    intro r hr
    rcases (holds_setThread h hlocate).mp hr with rfl | ⟨hold, hne⟩
    · simp [hid, hnew]
    · have hnot : ¬ r.state = .running := fun hrunning => by
        cases (ha.running r hold).mp hrunning
      simp [hnot]
      exact hne.symm
  present := by
    intro id hsome
    cases hsome
    exact ⟨new, (holds_setThread h hlocate).mpr (.inl rfl), hid, rfl⟩
  idle := fun hc => by cases hc

/-- A thread that was not running goes on not running. -/
theorem attends_keep {current : Option ThreadId} (ha : Attends t current process)
    (hlocate : t.locateThread thread = some (slot, record)) (hid : new.id = thread)
    (hold : record.state ≠ .running) (hnew : new.state ≠ .running) :
    Attends (t.setThread slot (some new)) current process where
  running := by
    intro r hr
    rcases (holds_setThread h hlocate).mp hr with rfl | ⟨hheld, -⟩
    · rcases locateThread_get hlocate with ⟨-, hget, hrecord⟩
      have hnot := (not_congr (ha.running record ⟨slot, hget⟩)).mp hold
      rw [hrecord, ← hid] at hnot
      simp [hnew, hnot]
    · exact ha.running r hheld
  present := by
    intro id hsome
    rcases ha.present id hsome with ⟨r, hr, hrid, howner⟩
    refine ⟨r, (holds_setThread h hlocate).mpr (.inr ⟨hr, ?_⟩), hrid, howner⟩
    -- The thread that was written is not the current one, which is running.
    intro hc
    rcases locateThread_get hlocate with ⟨-, hget, hrecord⟩
    have hsame := thread_unique h hr ⟨slot, hget⟩ (hc.trans hrecord.symm)
    rw [← hsame] at hold
    exact hold ((ha.running r hr).mpr (hrid ▸ hsome))
  idle := ha.idle

theorem attends_spawned {current : Option ThreadId} {parent : Option ProcessId} {child : ProcessId}
    (ha : Attends t current process) (hc : Change t (.spawned parent child thread) t') :
    Attends t' current process ∧ ∃ record, t'.threads.Holds record ∧ record.id = thread ∧
      record.process = some child := by
  cases hc with
  | spawned _ credentials hslot hfree hthreadSlot hthread hinit hparent =>
    refine ⟨⟨fun r hr => ?_, fun id hsome => ?_, ha.idle⟩, _,
      (holds_spawned_thread hthreadSlot hthread).mpr (.inl rfl), rfl, rfl⟩
    · rcases (holds_spawned_thread hthreadSlot hthread).mp hr with rfl | hold
      · -- The new thread is ready, and its name is new.
        constructor
        · intro hc
          cases hc
        · intro hsome
          rcases ha.present _ hsome with ⟨record, hrecord, hid, -⟩
          exact absurd hid (fresh_thread h hthreadSlot hthread hrecord)
      · exact ha.running r hold
    · rcases ha.present id hsome with ⟨record, hrecord, hrest⟩
      exact ⟨record, (holds_spawned_thread hthreadSlot hthread).mpr (.inr hrecord), hrest⟩

omit h in
/-- When the current process exits, its thread is not running any more. -/
theorem attends_exited {process : ProcessId} {record : ProcessRecord} {status : Int32}
    (ha : Attends t (some current) (some process)) (h : Inv t) :
    Attends (exited t process slot record status) none none where
  running := by
    intro r' hr'
    rcases Slots.holds_map.mp hr' with ⟨r, hr, rfl⟩
    simp
    by_cases howner : r.process = some process
    · rw [(sameThread_stop process r).2 howner]
      simp
    · have hstop : stop process r = r := if_neg howner
      rw [hstop]
      intro hrunning
      have hid := Option.some.inj ((ha.running r hr).mp hrunning)
      rcases ha.present current rfl with ⟨found, hfound, hfoundId, hprocess⟩
      rw [← thread_unique h hfound hr (hfoundId.trans hid)] at howner
      exact howner hprocess
  present := fun id hid => by cases hid
  idle := fun _ => rfl

/-- The thread that a wait frees is not the one that is waiting. -/
theorem attends_freed {parent : ProcessId} (ha : Attends t (some current) (some parent))
    (hf : Freed t parent t') : Attends t' (some current) (some parent) := by
  rcases hf with ⟨child, status, slot, record, threadSlot, threadRecord, hreapable, hthreads⟩
  have hheld : ∀ {r}, t'.threads.Holds r ↔ t.threads.Holds r ∧ r.id ≠ threadRecord.id := by
    intro r
    rw [hthreads]
    exact holds_tornThread h hreapable
  refine ⟨fun r hr => ha.running r (hheld.mp hr).1, fun id hsome => ?_, ha.idle⟩
  rcases ha.present id hsome with ⟨r, hr, hid, howner⟩
  refine ⟨r, hheld.mpr ⟨hr, fun hc => ?_⟩, hid, howner⟩
  -- The child lists the current thread, so it is the parent itself or not its child.
  rcases holds_of_locate hreapable.located with ⟨hrecord, hrecordId⟩
  have hlists := hreapable.lists_thread h
  rw [← hc] at hlists
  by_cases hself : record.id = parent
  · rcases h.owned r parent hr howner with ⟨-, owner, howns, hownerId, -, hexited⟩
    have hsame : owner = record := Arena.holds_unique (by simp [maxProcesses]) h.named howns hrecord
      (by rw [hownerId, hself])
    have hrunning := (ha.running r hr).mpr (hid ▸ hsome)
    rw [hexited (hsame ▸ hreapable.zombie)] at hrunning
    cases hrunning
  · exact (h.apart r parent record hr howner hrecord hlists hself).2 hreapable.ofParent

/-- Switching to a thread when none is running. -/
theorem start_spec (ha : Attends t none none) (next : ThreadId) :
    wp (switchTo none next)
      (fun _ t' => ∃ record, t.threads.Holds record ∧ record.id = next ∧ Touched t t' ∧
        Attends t' (some next) record.process)
      (fun _ t' => t' = t ∧ ∀ slot record, t.locateThread next = some (slot, record) →
        record.state ≠ .ready) t := by
  refine wp_mono (switchTo_none_spec next t) ?_ fun _ _ hfailed => ⟨hfailed.1, hfailed.2.2⟩
  rintro _ t' ⟨slot, record, hlocate, hready, rfl⟩
  rcases locateThread_get hlocate with ⟨-, hget, hid⟩
  have hstart : SameThread record (dispatched record) :=
    sameThread_of_live rfl rfl rfl (by simp [hready])
  exact ⟨record, ⟨slot, hget⟩, hid, touched_setThread hlocate hstart,
    attends_dispatch h ha hlocate hid rfl⟩

/-- The thread of init is never freed. -/
theorem anchored_change {e : Event} (hc : Change t e t') (ha : Anchored t thread) :
    Anchored t' thread := by
  rcases ha with ⟨r, hr, hid, howner⟩
  cases hc with
  | quiet htouched =>
    rcases Slots.holds_rel_forth htouched.threads hr with ⟨r', hr', hsame⟩
    exact ⟨r', hr', hsame.id.trans hid, hsame.process.trans howner⟩
  | spawned _ _ _ _ hthreadSlot hthread | kernel hthreadSlot hthread =>
    exact ⟨r, (Slots.holds_set_some hthreadSlot hthread).mpr (.inr hr), hid, howner⟩
  | @exited process _ _ status hprocess hlocate hrunning =>
    have hsame := (sameThread_stop process r).1
    exact ⟨stop process r, Slots.holds_map.mpr ⟨r, hr, rfl⟩, hsame.id.trans hid,
      hsame.process.trans howner⟩
  | reaped hreapable hthread hprocess | tornThread hreapable hthread
  | tornProcess hreapable hthread hprocess =>
    refine ⟨r, (holds_tornThread h hreapable).mpr ⟨hr, fun hc => ?_⟩, hid, howner⟩
    rcases holds_of_locate hreapable.located with ⟨hrecord, hrecordId⟩
    have hlists := hreapable.lists_thread h
    rw [← hc] at hlists
    have hne := hreapable.not_init h
    rw [← hrecordId] at hne
    exact (h.apart r _ _ hr howner hrecord hlists hne).1 rfl

end Running

/-! ### Every operation keeps the agreement -/

/-- The program leaves table and fields in agreement, whether it returns or
    fails. -/
def Keeps {α : Type} (x : RuntimeM α) : Prop :=
  ∀ r, Coherent r → wp x (fun _ => Coherent) (fun _ => Coherent) r

variable {r : Runtime}

theorem coherent_change (h : Coherent r) {e : Event} {thread : Option ThreadId}
    (hc : Change r.table e t') (ha : Attends t' thread process) :
    Coherent { r with table := t', currentThread := thread, currentProcess := process } :=
  ⟨inv_change h.inv hc, ha, fun th hth => anchored_change h.inv hc (h.anchored th hth)⟩

/-- There is a current thread where there is a current process. -/
theorem Coherent.currentThread (h : Coherent r) {process : ProcessId}
    (hprocess : r.currentProcess = some process) : ∃ thread, r.currentThread = some thread := by
  cases hthread : r.currentThread with
  | none =>
    rw [h.attends.idle hthread] at hprocess
    cases hprocess
  | some thread => exact ⟨thread, rfl⟩

variable {t : ProcessTable}

theorem locate_of_holds (h : Inv t) (hr : t.threads.Holds record) :
    ∃ slot, t.locateThread record.id = some (slot, record) :=
  Process.thread_ok.mp (h.thread_ok.mpr ⟨hr, rfl⟩)

theorem setCurrent_spec (h : Inv r.table) (ha : Attends r.table (some thread) process) :
    wp (setCurrent thread)
      (fun _ r' => r' = { r with currentThread := some thread, currentProcess := process })
      (fun _ _ => False) r := by
  rcases ha.present thread rfl with ⟨record, hr, rfl, rfl⟩
  rcases locate_of_holds h hr with ⟨slot, hlocate⟩
  simp only [setCurrent, onTable, wp_bind, wp_modify, wp_within, wp_thread, hlocate,
    Option.some.injEq, Prod.mk.injEq, and_imp, reduceCtorEq, false_implies, and_true]
  rintro _ _ rfl rfl
  trivial

/-- Switching from the current thread to another. -/
theorem keeps_switch (h : Coherent r)
    (hcurrent : r.currentThread = some current) (next : ThreadId) :
    wp (onTable (switchTo (some current) next) >>= fun _ => setCurrent next) (fun _ => Coherent)
      (fun _ => Coherent) r := by
  have ha := h.attends
  rw [hcurrent] at ha
  rw [wp_bind, onTable, wp_within]
  refine wp_mono (switchTo_some_spec current next r.table) ?_ ?_
  · rintro _ t' ⟨slot, record, slot', record', hlocate, hrunning, hlocate', hready, hslots, rfl⟩
    -- First the current thread stops, then the next one starts.
    have htouched : Touched r.table (r.table.setThread slot (some (readied record))) :=
      touched_setThread hlocate (sameThread_of_live rfl rfl rfl (by simp [hrunning]))
    have hinv := inv_touched h.inv htouched
    have hne : current ≠ next := by
      rintro rfl
      rw [hlocate, Option.some.injEq, Prod.mk.injEq] at hlocate'
      exact hslots hlocate'.1
    have hthere := (locateThread_setThread hlocate hlocate' hne (some (readied record))).2
    have hstart : SameThread record' (dispatched record') :=
      sameThread_of_live rfl rfl rfl (by simp [hready])
    have htouched' := touched_setThread hthere hstart
    have hidle : Attends (r.table.setThread slot (some (readied record))) none none :=
      attends_block h.inv ha hlocate (by simp [readied])
    have hattends : Attends ((r.table.setThread slot (some (readied record))).setThread slot'
        (some (dispatched record'))) (some next) record'.process :=
      attends_dispatch hinv hidle hthere (locateThread_get hlocate').2.2 rfl
    refine wp_never (setCurrent_spec (inv_touched hinv htouched') hattends) ?_
    rintro _ _ rfl
    exact coherent_change h (Change.quiet (htouched.trans htouched')) hattends
  · rintro _ t' ⟨rfl, -⟩
    exact h

theorem keeps_spawnChildCurrent (credentials : Credentials) :
    Keeps (spawnChildCurrent credentials) := by
  intro r h
  simp [spawnChildCurrent, onTable]
  refine ⟨fun parent _ => ?_, fun _ => h⟩
  refine wp_mono (spawnChild_spec parent credentials r.table) ?_ ?_
  · intro _ t' hc
    exact coherent_change h hc (attends_spawned h.inv h.attends hc).1
  · rintro _ t' ⟨rfl, -⟩
    exact h

theorem keeps_switchToUser (process : ProcessId) (thread : ThreadId) :
    Keeps (switchToUser process thread) := by
  intro r h
  rw [switchToUser, wp_bind, wp_lookup]
  refine ⟨fun current hcurrent => ?_, fun _ => h⟩
  rw [wp_bind, onTable, wp_within, wp_thread]
  refine ⟨fun slot record _ => ?_, fun _ => h⟩
  rw [wp_ite]
  exact ⟨fun _ => h, fun _ => keeps_switch h hcurrent thread⟩

theorem keeps_restoreInit : Keeps restoreInit := by
  intro r h
  simp [restoreInit, onTable]
  refine ⟨fun _ => h, fun hnone => ⟨fun initThread hinit => ?_, fun _ => h⟩⟩
  have ha := h.attends
  rw [ha.idle hnone, hnone] at ha
  refine wp_mono (start_spec h.inv ha initThread) ?_ ?_
  · rintro _ t' ⟨record, hr, hid, htouched, hattends⟩
    -- The thread of init is found by its name, so it is the one that was switched to.
    rcases h.anchored initThread hinit with ⟨found, hfound, hfoundId, howner⟩
    rw [← thread_unique h.inv hfound hr (hfoundId.trans hid.symm), howner] at hattends
    exact coherent_change h (Change.quiet htouched) hattends
  · rintro _ t' ⟨rfl, -⟩
    exact h

theorem keeps_exitCurrent (status : Int32) : Keeps (exitCurrent status) := by
  intro r h
  simp only [exitCurrent, onTable, wp_bind, wp_lookup, wp_ite, wp_within, wp_modify]
  refine ⟨fun process hprocess => ⟨fun thread hthread => ⟨fun _ => ?_, fun hinit => ?_⟩,
    fun _ => h⟩, fun _ => h⟩
  · have ha := h.attends
    rw [hthread] at ha
    rcases ha.present thread rfl with ⟨record, hr, rfl, -⟩
    rcases locate_of_holds h.inv hr with ⟨slot, hlocate⟩
    rw [wp_updateThread_of _ _ hlocate]
    refine coherent_change h (Change.quiet (touched_setThread hlocate ⟨rfl, rfl, rfl, fun _ => rfl⟩))
      (attends_block h.inv ha hlocate (by simp))
  · have ha := h.attends
    rw [hthread, hprocess] at ha
    refine wp_mono (exit_spec process status r.table) ?_ ?_
    · rintro _ t' ⟨slot, record, hne, hlocate, hrunning, rfl⟩
      exact coherent_change h (Change.exited status hne hlocate hrunning)
        (attends_exited ha h.inv)
    · rintro _ t' ⟨rfl, -⟩
      exact h

theorem keeps_waitCurrent (child : Option UInt32) : Keeps (waitCurrent child) := by
  intro r h
  simp [waitCurrent, onTable]
  refine ⟨fun parent hparent => ?_, fun _ => h⟩
  rcases h.currentThread hparent with ⟨current, hcurrent⟩
  have ha := h.attends
  rw [hcurrent, hparent] at ha
  have hafter : ∀ {e : Event} {t' : ProcessTable}, Change r.table e t' → Freed r.table parent t' →
      Coherent { r with table := t' } := by
    intro e t' hc hf
    have hcoherent := coherent_change h hc (attends_freed h.inv ha hf)
    rw [← hcurrent, ← hparent] at hcoherent
    exact hcoherent
  refine wp_mono (wait_spec h.inv.named h.inv.singleThreaded parent _) ?_ ?_
  · rintro _ t' ⟨hc, hf⟩
    exact hafter hc hf
  · rintro _ t' (⟨rfl, -⟩ | ⟨-, hc, hf⟩)
    · exact h
    · exact hafter hc hf

theorem keeps_yieldCurrent : Keeps yieldCurrent := by
  intro r h
  rw [yieldCurrent, wp_bind, wp_lookup]
  refine ⟨fun current hcurrent => ?_, fun _ => h⟩
  rw [wp_bind, wp_read]
  cases pickReady r.table with
  | none => exact h
  | some next =>
    rw [wp_bind, wp_read, wp_ite]
    exact ⟨fun _ => h, fun _ => keeps_switch h hcurrent next⟩

/-- Switching to a thread when none is current. -/
theorem keeps_start (h : Coherent r) (hnone : r.currentThread = none) (next : ThreadId) :
    wp (onTable (switchTo none next) >>= fun _ => setCurrent next) (fun _ => Coherent)
      (fun _ => Coherent) r := by
  have ha := h.attends
  rw [ha.idle hnone, hnone] at ha
  rw [wp_bind, onTable, wp_within]
  refine wp_mono (start_spec h.inv ha next) ?_ ?_
  · rintro _ t' ⟨record, -, -, htouched, hattends⟩
    refine wp_never (setCurrent_spec (inv_touched h.inv htouched) hattends) ?_
    rintro _ _ rfl
    exact coherent_change h (Change.quiet htouched) hattends
  · rintro _ t' ⟨rfl, -⟩
    exact h

/-- The record of a thread that has gone to sleep. -/
def slept (record : ThreadRecord) : ThreadRecord := { record with state := .sleeping }

theorem locate_setThread (h : Inv t) (hlocate : t.locateThread thread = some (slot, record))
    (hid : new.id = record.id) :
    (t.setThread slot (some new)).locateThread thread = some (slot, new) := by
  rcases locateThread_get hlocate with ⟨hlt, hget, hrecord⟩
  have hname : record.id = ThreadId.new slot (t.threadGenerations.get slot) :=
    ThreadId.ext (h.threadsNamed slot record hget)
  have hthere := locateThread_setThread_self hlt (hid.trans hname)
  rw [hid, hrecord] at hthere
  exact hthere

/-- A sleeping thread that is woken and switched to is running again. -/
theorem resume_spec (h : Inv t) (ha : Attends t none none)
    (hlocate : t.locateThread thread = some (slot, record)) (hsleeping : record.state = .sleeping) :
    wp (wakeThread thread >>= fun _ => switchTo none thread)
      (fun _ t' => Touched t t' ∧ Attends t' (some thread) record.process) (fun _ _ => False) t := by
  rw [wp_bind]
  refine wp_mono (wakeThread_spec thread t) ?_ ?_
  · rintro _ t₁ ⟨slot₁, record₁, hlocate₁, -, rfl⟩
    rcases locate_same hlocate hlocate₁ with ⟨rfl, rfl⟩
    have hsame : SameThread record { record with state := .ready } :=
      sameThread_of_live rfl rfl rfl (by simp [hsleeping])
    have htouched := touched_setThread hlocate hsame
    have hwoken : (t.setThread slot (some { record with state := .ready })).locateThread thread
        = some (slot, { record with state := .ready }) := locate_setThread h hlocate rfl
    have hidle : Attends (t.setThread slot (some { record with state := .ready })) none none :=
      attends_keep h ha hlocate (locateThread_get hlocate).2.2 (by simp [hsleeping]) (by simp)
    have hinv := inv_touched h htouched
    refine wp_mono (start_spec hinv hidle thread) ?_ ?_
    · rintro _ t₂ ⟨record₂, hr₂, hid₂, hagain, hattends⟩
      rcases locateThread_get hwoken with ⟨-, hget, hid⟩
      rw [thread_unique hinv hr₂ ⟨slot, hget⟩ (hid₂.trans hid.symm)] at hattends
      exact ⟨htouched.trans hagain, hattends⟩
    · rintro _ t₂ ⟨-, hnot⟩
      exact hnot slot _ hwoken rfl
  · rintro _ t₁ ⟨-, -, hnot⟩
    exact hnot slot record hlocate (.inr hsleeping)

/-- Putting the current thread to sleep: another thread takes over, or it goes
    on itself. -/
theorem keeps_sleepCurrent : Keeps sleepCurrent := by
  intro r h
  rw [sleepCurrent, wp_bind, wp_lookup]
  refine ⟨fun current hcurrent => ?_, fun _ => h⟩
  have ha := h.attends
  rw [hcurrent] at ha
  rw [wp_bind, onTable, wp_within]
  refine wp_mono (blockThread_spec current true r.table) ?_ ?_
  · rintro _ t₁ ⟨slot, record, hlocate, hstate, ht₁⟩
    have hsame : SameThread record (slept record) := by
      refine sameThread_of_live rfl rfl rfl ?_
      rcases hstate with hstate | hstate <;> simp [hstate]
    have htouched : Touched r.table t₁ := ht₁ ▸ touched_setThread hlocate hsame
    have hidle : Attends t₁ none none := ht₁ ▸ attends_block h.inv ha hlocate (by simp)
    have hasleep : t₁.locateThread current = some (slot, slept record) :=
      ht₁ ▸ locate_setThread h.inv hlocate rfl
    rw [wp_bind, wp_read]
    cases pickReady t₁ with
    | none =>
      simp [onTable]
      have hresume := resume_spec (inv_touched h.inv htouched) hidle hasleep rfl
      rw [wp_bind] at hresume
      refine wp_never hresume fun _ t₂ hswitch => wp_never hswitch ?_
      rintro _ t₃ ⟨hagain, hattends⟩
      -- The fields still name the thread and its owner.
      have howner : record.process = r.currentProcess := by
        rcases locateThread_get hlocate with ⟨-, hget, hid⟩
        rcases ha.present current rfl with ⟨found, hfound, hfoundId, hprocess⟩
        rw [← thread_unique h.inv hfound ⟨slot, hget⟩ (hfoundId.trans hid.symm)]
        exact hprocess
      have hcoherent := coherent_change h (Change.quiet (htouched.trans hagain)) hattends
      rw [← hcurrent, show (slept record).process = r.currentProcess from howner] at hcoherent
      exact hcoherent
    | some next =>
      exact keeps_start (coherent_change h (Change.quiet htouched) hidle) rfl next
  · rintro _ t' ⟨rfl, -⟩
    exact h

theorem attends_new : Attends ProcessTable.new none none where
  running := fun _ hr => absurd hr Slots.not_holds_replicate
  present := fun _ hc => by cases hc
  idle := fun _ => rfl

theorem coherent_new : Coherent Runtime.new :=
  ⟨inv_new, attends_new, fun _ hc => by cases hc⟩

/-- The first process of a new table is init. -/
theorem new_spawned_init {process : ProcessId}
    (hc : Change ProcessTable.new (.spawned none process thread) t') :
    process = ProcessId.init := by
  cases hc with
  | spawned _ credentials hslot hfree hthreadSlot hthread hinit hparent =>
    exact (new_eq_init inv_new hslot).mpr (hinit rfl)

theorem keeps_initRuntime : Keeps initRuntime := by
  intro r _
  simp [initRuntime, onTable]
  refine wp_mono (createInit_spec ProcessTable.new) ?_ ?_
  · rintro ⟨process, thread⟩ t₁ hc
    rcases attends_spawned inv_new attends_new hc with ⟨hidle, made, hmade, hmadeId, hmadeOwner⟩
    have hinv := inv_change inv_new hc
    have hinit := new_spawned_init hc
    simp only at hinit hmadeId hmadeOwner
    refine wp_mono (start_spec hinv hidle thread) ?_ ?_
    · rintro _ t₂ ⟨record, hr, hid, htouched, hattends⟩
      rw [← thread_unique hinv hmade hr (hmadeId.trans hid.symm), hmadeOwner] at hattends
      refine ⟨inv_touched hinv htouched, hattends, ?_⟩
      rintro _ ⟨⟩
      rw [hinit] at hattends
      exact hattends.present thread rfl
    · rintro _ t₂ ⟨rfl, -⟩
      exact ⟨hinv, hidle, fun _ hc => by cases hc⟩
  · rintro _ t₁ ⟨rfl, -⟩
    exact coherent_new

theorem keeps_perform (call : RuntimeCall) : Keeps call.perform := by
  have hthen : ∀ {α : Type} {x : RuntimeM α} (f : α → Answer), Keeps x →
      Keeps (x >>= fun a => pure (f a)) := by
    intro α x f hx r h
    rw [wp_bind]
    exact wp_post (hx r h) (fun _ _ h' => h')
  cases call with
  | initRuntime => exact hthen .started keeps_initRuntime
  | spawnChildCurrent credentials =>
    exact hthen (fun p => .created p.1 p.2) (keeps_spawnChildCurrent credentials)
  | switchToUser process thread =>
    exact hthen (fun _ => .done) (keeps_switchToUser process thread)
  | restoreInit => exact hthen (fun _ => .done) keeps_restoreInit
  | exitCurrent status => exact hthen (fun _ => .done) (keeps_exitCurrent status)
  | waitCurrent child => exact hthen (fun p => .waited p.1 p.2) (keeps_waitCurrent child)
  | yieldCurrent => exact hthen (fun _ => .done) keeps_yieldCurrent
  | sleepCurrent => exact hthen (fun _ => .done) keeps_sleepCurrent

/-- Every operation keeps table and fields in agreement. -/
theorem coherent_step (r : Runtime) (call : RuntimeCall) (h : Coherent r) :
    Coherent (r.step call) :=
  of_wp (keeps_perform call r h)

theorem coherent_run (calls : List RuntimeCall) :
    Coherent (run Runtime.step Runtime.new calls) :=
  run_keeps Runtime.step (P := Coherent) coherent_step calls coherent_new

/-- After any operations of the runtime at most one thread is running. If there
    is a current thread, it exists and is running and the current process is
    its owner; if there is none, no thread is running. -/
theorem single_current_thread (calls : List RuntimeCall) :
    let r := run Runtime.step Runtime.new calls
    (∀ i j record record', r.table.threads.get i = some record →
      r.table.threads.get j = some record' → record.state = .running →
      record'.state = .running → i = j) ∧
    (∀ thread, r.currentThread = some thread → ∃ record, r.table.thread thread = .ok record ∧
      record.state = .running ∧ r.currentProcess = record.process) ∧
    (r.currentThread = none → ∀ i record, r.table.threads.get i = some record →
      record.state ≠ .running) := by
  intro r
  have h : Coherent r := coherent_run calls
  refine ⟨?_, ?_, ?_⟩
  · intro i j record record' hi hj hrunning hrunning'
    have hcurrent := (h.attends.running record ⟨i, hi⟩).mp hrunning
    have hcurrent' := (h.attends.running record' ⟨j, hj⟩).mp hrunning'
    rw [hcurrent, Option.some.injEq] at hcurrent'
    exact Arena.slot_unique (by simp [maxThreads]) h.inv.threadsNamed hi hj
      (congrArg ThreadId.raw hcurrent')
  · intro thread hthread
    rcases h.attends.present thread hthread with ⟨record, hr, hid, howner⟩
    refine ⟨record, h.inv.thread_ok.mpr ⟨hr, hid⟩, ?_, howner.symm⟩
    exact (h.attends.running record hr).mpr (hid ▸ hthread)
  · intro hnone i record hget hrunning
    have hcurrent := (h.attends.running record ⟨i, hget⟩).mp hrunning
    rw [hnone] at hcurrent
    cases hcurrent

end Process

end Norx
