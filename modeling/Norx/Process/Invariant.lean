import Norx.Lib.Run
import Norx.Process.Effects

/-!
# The Process Table Holds Together

One invariant of the table that every change keeps, in every run, the ones
included in which a generation has run out. Records carry the names of their
slots. The first process is init, it runs and it has no parent; every other
process has a parent that runs. A process is running or a zombie, and it has
an exit status just when it is a zombie. Each process lists one thread, and
each thread of a process is on the list of its owner and has exited if the
owner has.

Two parts are only there for the runs in which a generation has run out. A
thread on a list may be gone, or belong to another process by now, but only if
the generation of its slot is the last one (`listed`). And where it belongs to
another process, that process is not init and not the parent of the one that
lists it (`apart`), so it will never be the one that waits for it.

## Main definitions

* `Inv`: The invariant.

## Theorems

* `inv_change`, `inv_run`: The invariant holds in every run.
* `run_cross_referenced`: The two tables refer to each other correctly.
-/

namespace Norx

namespace Process

open Slots Arena

/-- The record lists this thread and no other. -/
def Lists (record : ProcessRecord) (thread : ThreadId) : Prop :=
  record.threads = (Slots.replicate _ none).set 0 (some thread)

/-- A process is running and has no exit status, or it is a zombie and has
    one. -/
def Living (record : ProcessRecord) : Prop :=
  (record.state = .running ∧ record.exitStatus = none) ∨
    (record.state = .zombie ∧ ∃ status, record.exitStatus = some status)

structure Inv (t : ProcessTable) : Prop where
  named : Arena.Named t.processes t.processGenerations (·.id.raw)
  threadsNamed : Arena.Named t.threads t.threadGenerations (·.id.raw)
  firstGeneration : t.processGenerations.get 0 = 0
  rooted : ∀ record, t.processes.Holds record →
    ∃ root, t.processes.Holds root ∧ root.id = ProcessId.init
  root : ∀ record, t.processes.Holds record → record.id = ProcessId.init →
    record.state = .running ∧ record.parent = none
  living : ∀ record, t.processes.Holds record → Living record
  parented : ∀ record, t.processes.Holds record → record.id ≠ ProcessId.init →
    ∃ parent, t.processes.Holds parent ∧ record.parent = some parent.id ∧ parent.state = .running
  lists : ∀ record, t.processes.Holds record → ∃ thread, Lists record thread
  listed : ∀ record thread, t.processes.Holds record → Lists record thread →
    ∃ j, j < maxThreads ∧ thread = ThreadId.new j (t.threadGenerations.get j) ∧
      (t.threadGenerations.get j = 65535 ∨ ∃ threadRecord, t.threads.Holds threadRecord ∧
        threadRecord.id = thread ∧ threadRecord.process = some record.id)
  owned : ∀ threadRecord p, t.threads.Holds threadRecord → threadRecord.process = some p →
    threadRecord.kind = .user ∧ ∃ record, t.processes.Holds record ∧ record.id = p ∧
      Lists record threadRecord.id ∧ (record.state = .zombie → threadRecord.state = .exited)
  kernel : ∀ threadRecord, t.threads.Holds threadRecord → threadRecord.process = none →
    threadRecord.kind = .kernel
  apart : ∀ threadRecord q record, t.threads.Holds threadRecord →
    threadRecord.process = some q → t.processes.Holds record → Lists record threadRecord.id →
    record.id ≠ q → q ≠ ProcessId.init ∧ record.parent ≠ some q

/-! ### Lists -/

variable {record : ProcessRecord} {thread : ThreadId}

theorem Lists.entries (h : Lists record thread) : record.threads.entries = [thread] := by
  rw [h]
  rfl

theorem Lists.unique {thread' : ThreadId} (h : Lists record thread) (h' : Lists record thread') :
    thread = thread' := by
  have hentries := h.entries
  rw [h'.entries, List.singleton_inj] at hentries
  exact hentries.symm

variable {t : ProcessTable}

theorem Inv.singleThreaded (h : Inv t) : SingleThreaded t := by
  intro i record hget
  rcases h.lists record ⟨i, hget⟩ with ⟨thread, hlists⟩
  exact ⟨thread, hlists.entries⟩

/-! ### What the tables hold after a change -/

variable {t' : ProcessTable} {record' r : ProcessRecord} {slot : Nat} {parent : Option ProcessId}
  {credentials : Credentials} {threadSlot : Nat}

section Held

variable {t : ProcessTable}

theorem holds_of_locate {id : ProcessId} (h : t.locateProcess id = some (slot, record)) :
    t.processes.Holds record ∧ record.id = id := by
  rcases locateProcess_get h with ⟨-, hget, hid⟩
  exact ⟨⟨slot, hget⟩, hid⟩

theorem holds_spawned (hslot : slot < maxProcesses) (hfree : t.processes.get slot = none) :
    (spawned t slot threadSlot parent credentials).processes.Holds r ↔
      r = firstRecord (ProcessId.new slot (t.processGenerations.get slot)) parent credentials
        (ThreadId.new threadSlot (t.threadGenerations.get threadSlot)) ∨ t.processes.Holds r :=
  holds_set_some hslot hfree

theorem holds_spawned_thread (hthreadSlot : threadSlot < maxThreads)
    (hthread : t.threads.get threadSlot = none) {r : ThreadRecord} :
    (spawned t slot threadSlot parent credentials).threads.Holds r ↔
      r = firstThread (ThreadId.new threadSlot (t.threadGenerations.get threadSlot))
        (some (ProcessId.new slot (t.processGenerations.get slot))) .user ∨ t.threads.Holds r :=
  holds_set_some hthreadSlot hthread

end Held

/-! ### Each change keeps the invariant -/

section Preserved

variable {t t' : ProcessTable}

/-- The record of a process where those in `gone` exit: they become zombies, and
    init takes over their children. -/
structure Carries (gone : ProcessId → Prop) (record record' : ProcessRecord) : Prop where
  id : record'.id = record.id
  threads : record'.threads = record.threads
  parent : record'.parent = record.parent ∧ (∀ p, record.parent = some p → ¬ gone p) ∨
    record'.parent = some ProcessId.init ∧ record.parent ≠ none
  ends : gone record.id → record'.state = .zombie ∧ ∃ status, record'.exitStatus = some status
  stays : ¬ gone record.id →
    record'.state = record.state ∧ record'.exitStatus = record.exitStatus

/-- Records are rewritten in place, where the processes in `gone` exit and their
    threads end. -/
structure Carried (gone : ProcessId → Prop) (t t' : ProcessTable) : Prop where
  processGenerations : t'.processGenerations = t.processGenerations
  threadGenerations : t'.threadGenerations = t.threadGenerations
  processes : ∀ i, Option.Rel (Carries gone) (t.processes.get i) (t'.processes.get i)
  threads : ∀ i, Option.Rel SameThread (t.threads.get i) (t'.threads.get i)
  ended : ∀ record p, t'.threads.Holds record → record.process = some p → gone p →
    record.state = .exited

variable {gone : ProcessId → Prop}

theorem Carries.lists (h : Carries gone record record') :
    Lists record' thread ↔ Lists record thread := by
  unfold Lists
  rw [h.threads]

theorem Carried.process_back (h : Carried gone t t') (hr : t'.processes.Holds record') :
    ∃ record, t.processes.Holds record ∧ Carries gone record record' :=
  holds_rel_back h.processes hr

theorem Carried.process_forth (h : Carried gone t t') (hr : t.processes.Holds record) :
    ∃ record', t'.processes.Holds record' ∧ Carries gone record record' :=
  holds_rel_forth h.processes hr

theorem Carried.thread_back (h : Carried gone t t') {record' : ThreadRecord}
    (hr : t'.threads.Holds record') :
    ∃ record, t.threads.Holds record ∧ SameThread record record' :=
  holds_rel_back h.threads hr

/-- A thread on a list is where it was, and whose it was. -/
theorem Carried.found (h : Carried gone t t') (hsame : record'.id = record.id)
    (hfound : ∃ r, t.threads.Holds r ∧ r.id = thread ∧ r.process = some record.id) :
    ∃ r, t'.threads.Holds r ∧ r.id = thread ∧ r.process = some record'.id := by
  rcases hfound with ⟨r, hr, hid, howner⟩
  rcases holds_rel_forth h.threads hr with ⟨r', hr', hs⟩
  exact ⟨r', hr', hs.id.trans hid, by rw [hs.process, howner, hsame]⟩

theorem inv_carried (h : Inv t) (hc : Carried gone t t') (hinit : ¬ gone ProcessId.init) :
    Inv t' where
  named := by
    rw [hc.processGenerations]
    exact named_rel h.named (fun _ _ hs => congrArg ProcessId.raw hs.id) hc.processes
  threadsNamed := by
    rw [hc.threadGenerations]
    exact named_rel h.threadsNamed (fun _ _ hs => congrArg ThreadId.raw hs.id) hc.threads
  firstGeneration := by
    rw [hc.processGenerations]
    exact h.firstGeneration
  rooted := by
    intro r' hr'
    rcases hc.process_back hr' with ⟨r, hr, -⟩
    rcases h.rooted r hr with ⟨root, hroot, hid⟩
    rcases hc.process_forth hroot with ⟨root', hroot', hs⟩
    exact ⟨root', hroot', hs.id.trans hid⟩
  root := by
    intro r' hr' hid
    rcases hc.process_back hr' with ⟨r, hr, hs⟩
    rw [hs.id] at hid
    rcases h.root r hr hid with ⟨hrunning, hnone⟩
    refine ⟨(hs.stays (hid ▸ hinit)).1.trans hrunning, ?_⟩
    rcases hs.parent with ⟨hparent, -⟩ | ⟨-, hsome⟩
    · exact hparent.trans hnone
    · exact absurd hnone hsome
  living := by
    intro r' hr'
    rcases hc.process_back hr' with ⟨r, hr, hs⟩
    by_cases hgone : gone r.id
    · exact .inr (hs.ends hgone)
    · unfold Living
      rw [(hs.stays hgone).1, (hs.stays hgone).2]
      exact h.living r hr
  parented := by
    intro r' hr' hid
    rcases hc.process_back hr' with ⟨r, hr, hs⟩
    rcases hs.parent with ⟨hparent, hstays⟩ | ⟨hparent, -⟩
    · rcases h.parented r hr (hs.id ▸ hid) with ⟨parent, hheld, hof, hrunning⟩
      rcases hc.process_forth hheld with ⟨parent', hheld', hs'⟩
      refine ⟨parent', hheld', ?_, (hs'.stays (hstays _ hof)).1.trans hrunning⟩
      rw [hparent, hof, hs'.id]
    · -- The parent is one that exits, and init is there to take over.
      rcases h.rooted r hr with ⟨root, hroot, hrootId⟩
      rcases hc.process_forth hroot with ⟨root', hroot', hs'⟩
      refine ⟨root', hroot', by rw [hparent, hs'.id, hrootId], ?_⟩
      exact (hs'.stays (hrootId ▸ hinit)).1.trans (h.root root hroot hrootId).1
  lists := by
    intro r' hr'
    rcases hc.process_back hr' with ⟨r, hr, hs⟩
    rcases h.lists r hr with ⟨thread, hlists⟩
    exact ⟨thread, hs.lists.mpr hlists⟩
  listed := by
    intro r' thread hr' hlists'
    rcases hc.process_back hr' with ⟨r, hr, hs⟩
    rcases h.listed r thread hr (hs.lists.mp hlists') with ⟨j, hj, hid, hwhere⟩
    rw [hc.threadGenerations]
    exact ⟨j, hj, hid, hwhere.imp_right (hc.found hs.id)⟩
  owned := by
    intro threadRecord' p hthread' howner'
    rcases hc.thread_back hthread' with ⟨threadRecord, hthread, hsame⟩
    rcases h.owned threadRecord p hthread (hsame.process ▸ howner') with
      ⟨huser, r, hr, hid, hlists, hexited⟩
    rcases hc.process_forth hr with ⟨r', hr', hs⟩
    refine ⟨hsame.kind.trans huser, r', hr', hs.id.trans hid, ?_, fun hzombie => ?_⟩
    · rw [hsame.id]
      exact hs.lists.mpr hlists
    · by_cases hgone : gone r.id
      · exact hc.ended threadRecord' p hthread' howner' (hid ▸ hgone)
      · exact hsame.exited (hexited ((hs.stays hgone).1 ▸ hzombie))
  kernel := by
    intro threadRecord' hthread' hnone
    rcases hc.thread_back hthread' with ⟨threadRecord, hthread, hsame⟩
    exact hsame.kind.trans (h.kernel threadRecord hthread (hsame.process ▸ hnone))
  apart := by
    intro threadRecord' q r' hthread' howner' hr' hlists' hne
    rcases hc.thread_back hthread' with ⟨threadRecord, hthread, hsame⟩
    rcases hc.process_back hr' with ⟨r, hr, hs⟩
    rw [hsame.process] at howner'
    rw [hsame.id] at hlists'
    rw [hs.id] at hne
    rcases h.apart threadRecord q r hthread howner' hr (hs.lists.mp hlists') hne with
      ⟨hroot, hof⟩
    refine ⟨hroot, ?_⟩
    rcases hs.parent with ⟨hparent, -⟩ | ⟨hparent, -⟩
    · rw [hparent]
      exact hof
    · rw [hparent]
      exact fun hc => hroot (Option.some.inj hc).symm

/-- Nobody exits. -/
theorem Touched.carried (h : Touched t t') : Carried (fun _ => False) t t' where
  processGenerations := h.processGenerations
  threadGenerations := h.threadGenerations
  processes := fun i => rel_mono (fun _ _ hs => ⟨hs.id, hs.threads, .inl ⟨hs.parent, fun _ _ => id⟩,
    False.elim, fun _ => ⟨hs.state, hs.exitStatus⟩⟩) (h.processes i)
  threads := h.threads
  ended := fun _ _ _ _ => False.elim

theorem inv_touched (h : Inv t) (hc : Touched t t') : Inv t' := inv_carried h hc.carried id

theorem processId_new_slot (generation : UInt16) (hslot : slot < maxProcesses) :
    (ProcessId.new slot generation).slot = some slot :=
  slotOf_name _ hslot (by simp [maxProcesses])

theorem threadId_new_slot (generation : UInt16) (hslot : slot < maxThreads) :
    (ThreadId.new slot generation).slot = some slot :=
  slotOf_name _ hslot (by simp [maxThreads])

/-- The name of a free slot is nobody's. -/
theorem fresh_process (h : Inv t) (hslot : slot < maxProcesses)
    (hfree : t.processes.get slot = none) (hr : t.processes.Holds record) :
    record.id ≠ ProcessId.new slot (t.processGenerations.get slot) := by
  rcases hr with ⟨i, hi⟩
  intro hid
  have hgiven := given_of_get (by simp [maxProcesses]) h.named hi
  rw [hid] at hgiven
  exact not_given_of_free (by simp [maxProcesses]) hslot hfree hgiven

theorem fresh_thread (h : Inv t) (hslot : slot < maxThreads) (hfree : t.threads.get slot = none)
    {record : ThreadRecord} (hr : t.threads.Holds record) :
    record.id ≠ ThreadId.new slot (t.threadGenerations.get slot) := by
  rcases hr with ⟨i, hi⟩
  intro hid
  have hgiven := given_of_get (by simp [maxThreads]) h.threadsNamed hi
  rw [hid] at hgiven
  exact not_given_of_free (by simp [maxThreads]) hslot hfree hgiven

/-- A process whose slot is the first is init, and only it. -/
theorem new_eq_init (h : Inv t) (hslot : slot < maxProcesses) :
    ProcessId.new slot (t.processGenerations.get slot) = ProcessId.init ↔ slot = 0 := by
  constructor
  · intro hid
    have hslots := processId_new_slot (t.processGenerations.get slot) hslot
    rw [hid] at hslots
    exact (Option.some.inj hslots).symm
  · rintro rfl
    rw [h.firstGeneration]
    rfl

/-- Where there is any process, the first slot is taken. -/
theorem first_taken (h : Inv t) (hr : t.processes.Holds record) : t.processes.get 0 ≠ none := by
  intro hfree
  rcases h.rooted record hr with ⟨root, hroot, hid⟩
  have hslot : 0 < maxProcesses := by simp [maxProcesses]
  exact fresh_process h hslot hfree hroot (hid.trans ((new_eq_init h hslot).mpr rfl).symm)

/-- A new thread leaves the threads on the lists where they are. -/
theorem listed_setThread (h : Inv t) (hslot : slot < maxThreads) (hfree : t.threads.get slot = none)
    (new : ThreadRecord) (hr : t.processes.Holds record) (hlists : Lists record thread) :
    ∃ j, j < maxThreads ∧ thread = ThreadId.new j (t.threadGenerations.get j) ∧
      (t.threadGenerations.get j = 65535 ∨ ∃ threadRecord,
        (t.threads.set slot (some new)).Holds threadRecord ∧
          threadRecord.id = thread ∧ threadRecord.process = some record.id) := by
  rcases h.listed record thread hr hlists with ⟨j, hj, hid, hwhere⟩
  refine ⟨j, hj, hid, hwhere.imp_right ?_⟩
  rintro ⟨threadRecord, hthread, hthreadId, howner⟩
  exact ⟨threadRecord, (holds_set_some hslot hfree).mpr (.inr hthread), hthreadId, howner⟩

theorem inv_kernel (h : Inv t) (hslot : slot < maxThreads) (hfree : t.threads.get slot = none) :
    Inv (t.setThread slot (some (firstThread
      (ThreadId.new slot (t.threadGenerations.get slot)) none .kernel))) where
  named := h.named
  threadsNamed := named_set_some h.threadsNamed rfl
  firstGeneration := h.firstGeneration
  rooted := h.rooted
  root := h.root
  living := h.living
  parented := h.parented
  lists := h.lists
  listed := fun _ _ hr hlists => listed_setThread h hslot hfree _ hr hlists
  owned := by
    intro threadRecord p hthread howner
    rcases (holds_set_some hslot hfree).mp hthread with rfl | hold
    · cases howner
    · exact h.owned threadRecord p hold howner
  kernel := by
    intro threadRecord hthread hnone
    rcases (holds_set_some hslot hfree).mp hthread with rfl | hold
    · rfl
    · exact h.kernel threadRecord hold hnone
  apart := by
    intro threadRecord q record hthread howner hr hlists hne
    rcases (holds_set_some hslot hfree).mp hthread with rfl | hold
    · cases howner
    · exact h.apart threadRecord q record hold howner hr hlists hne

theorem inv_spawned (h : Inv t) (hslot : slot < maxProcesses) (hfree : t.processes.get slot = none)
    (hthreadSlot : threadSlot < maxThreads) (hthread : t.threads.get threadSlot = none)
    (hinit : parent = none → slot = 0)
    (hparent : ∀ p, parent = some p → ∃ record, t.process p = .ok record ∧ record.state = .running) :
    Inv (spawned t slot threadSlot parent credentials) := by
  -- What the two tables hold now, and who the parent is.
  have hp : ∀ {r}, (spawned t slot threadSlot parent credentials).processes.Holds r ↔ _ :=
    holds_spawned hslot hfree
  have ht : ∀ {r}, (spawned t slot threadSlot parent credentials).threads.Holds r ↔ _ :=
    holds_spawned_thread hthreadSlot hthread
  have hrunning : ∀ p, parent = some p →
      ∃ record, t.processes.Holds record ∧ record.id = p ∧ record.state = .running := by
    intro p hpar
    rcases hparent p hpar with ⟨record, hlookup, hstate⟩
    rcases process_ok.mp hlookup with ⟨i, hlocate⟩
    exact ⟨record, (holds_of_locate hlocate).1, (holds_of_locate hlocate).2, hstate⟩
  have hfirst : slot = 0 → parent = none := by
    rintro rfl
    cases parent with
    | none => rfl
    | some p =>
      rcases hrunning p rfl with ⟨record, hr, -, -⟩
      exact absurd hfree (first_taken h hr)
  exact
  { named := named_set_some h.named rfl
    threadsNamed := named_set_some h.threadsNamed rfl
    firstGeneration := h.firstGeneration
    rooted := by
      intro record hr
      cases parent with
      | none => exact ⟨_, hp.mpr (.inl rfl), (new_eq_init h hslot).mpr (hinit rfl)⟩
      | some p =>
        rcases hrunning p rfl with ⟨parentRecord, hparentRecord, -, -⟩
        rcases h.rooted parentRecord hparentRecord with ⟨root, hroot, hid⟩
        exact ⟨root, hp.mpr (.inr hroot), hid⟩
    root := by
      intro record hr hid
      rcases hp.mp hr with rfl | hold
      · exact ⟨rfl, hfirst ((new_eq_init h hslot).mp hid)⟩
      · exact h.root record hold hid
    living := by
      intro record hr
      rcases hp.mp hr with rfl | hold
      · exact .inl ⟨rfl, rfl⟩
      · exact h.living record hold
    parented := by
      intro record hr hid
      rcases hp.mp hr with rfl | hold
      · cases parent with
        | none => exact absurd ((new_eq_init h hslot).mpr (hinit rfl)) hid
        | some p =>
          rcases hrunning p rfl with ⟨parentRecord, hparentRecord, rfl, hstate⟩
          exact ⟨parentRecord, hp.mpr (.inr hparentRecord), rfl, hstate⟩
      · rcases h.parented record hold hid with ⟨parentRecord, hparentRecord, hof, hstate⟩
        exact ⟨parentRecord, hp.mpr (.inr hparentRecord), hof, hstate⟩
    lists := by
      intro record hr
      rcases hp.mp hr with rfl | hold
      · exact ⟨_, rfl⟩
      · exact h.lists record hold
    listed := by
      intro record thread hr hlists
      rcases hp.mp hr with rfl | hold
      · refine ⟨threadSlot, hthreadSlot, hlists.unique rfl, .inr ⟨_, ht.mpr (.inl rfl), ?_, rfl⟩⟩
        exact (hlists.unique rfl).symm
      · exact listed_setThread h hthreadSlot hthread _ hold hlists
    owned := by
      intro threadRecord p hthreadRecord howner
      rcases ht.mp hthreadRecord with rfl | hold
      · refine ⟨rfl, _, hp.mpr (.inl rfl), Option.some.inj howner, rfl, ?_⟩
        intro hzombie
        cases hzombie
      · rcases h.owned threadRecord p hold howner with ⟨huser, record, hr, hrest⟩
        exact ⟨huser, record, hp.mpr (.inr hr), hrest⟩
    kernel := by
      intro threadRecord hthreadRecord hnone
      rcases ht.mp hthreadRecord with rfl | hold
      · cases hnone
      · exact h.kernel threadRecord hold hnone
    apart := by
      intro threadRecord q record hthreadRecord howner hr hlists hne
      rcases ht.mp hthreadRecord with rfl | hold
      · -- The thread is new, and so is its owner: nobody's parent, and not init.
        cases howner
        rcases hp.mp hr with rfl | holdr
        · exact absurd rfl hne
        · constructor
          · intro hid
            rw [(new_eq_init h hslot).mp hid] at hfree
            exact first_taken h holdr hfree
          · intro hof
            by_cases hroot : record.id = ProcessId.init
            · rw [(h.root record holdr hroot).2] at hof
              cases hof
            · rcases h.parented record holdr hroot with ⟨parentRecord, hparentRecord, hof', -⟩
              rw [hof, Option.some.injEq] at hof'
              exact fresh_process h hslot hfree hparentRecord hof'.symm
      · rcases hp.mp hr with rfl | holdr
        · exact absurd (hlists.unique rfl) (fresh_thread h hthreadSlot hthread hold)
        · exact h.apart threadRecord q record hold howner holdr hlists hne }

/-- What becomes of a record when a process exits. -/
structure Aged (process : ProcessId) (status : Int32) (record record' : ProcessRecord) :
    Prop where
  id : record'.id = record.id
  threads : record'.threads = record.threads
  parent : record'.parent =
    if record.parent = some process then some ProcessId.init else record.parent
  fate : (record.id = process ∧ record'.state = .zombie ∧ record'.exitStatus = some status) ∨
    (record.id ≠ process ∧ record'.state = record.state ∧
      record'.exitStatus = record.exitStatus)

variable {process : ProcessId}

theorem aged_bury (status : Int32) (hid : record.id = process) :
    Aged process status record (bury process status record) := by
  unfold bury adopt
  split
  · next hof => exact ⟨rfl, rfl, (if_pos hof).symm, .inl ⟨hid, rfl, rfl⟩⟩
  · next hof => exact ⟨rfl, rfl, (if_neg hof).symm, .inl ⟨hid, rfl, rfl⟩⟩

theorem aged_adopt (status : Int32) (hid : record.id ≠ process) :
    Aged process status record (adopt process record) := by
  unfold adopt
  split
  · next hof => exact ⟨rfl, rfl, (if_pos hof).symm, .inr ⟨hid, rfl, rfl⟩⟩
  · next hof => exact ⟨rfl, rfl, (if_neg hof).symm, .inr ⟨hid, rfl, rfl⟩⟩

theorem Aged.carries {status : Int32} (h : Aged process status record record') :
    Carries (· = process) record record' where
  id := h.id
  threads := h.threads
  parent := by
    have hparent := h.parent
    split at hparent
    · next hof => exact .inr ⟨hparent, by rw [hof]; exact nofun⟩
    · next hof => exact .inl ⟨hparent, fun p hp hc => hof (by rw [hp, hc])⟩
  ends := fun hid => by
    rcases h.fate with ⟨-, hzombie, hstatus⟩ | ⟨hne, -⟩
    · exact ⟨hzombie, status, hstatus⟩
    · exact absurd hid hne
  stays := fun hne => by
    rcases h.fate with ⟨hid, -⟩ | ⟨-, hkept⟩
    · exact absurd hid hne
    · exact hkept

/-- What becomes of a thread when a process exits. -/
theorem sameThread_stop (process : ProcessId) (record : ThreadRecord) :
    SameThread record (stop process record) ∧
      (record.process = some process → (stop process record).state = .exited) := by
  unfold stop
  split
  · exact ⟨⟨rfl, rfl, rfl, fun _ => rfl⟩, fun _ => rfl⟩
  · next hne => exact ⟨SameThread.refl record, fun howner => absurd howner hne⟩

section Exited

variable (h : Inv t) {process : ProcessId} {slot : Nat} {record : ProcessRecord} {status : Int32}
  (hlocate : t.locateProcess process = some (slot, record))

include h hlocate

theorem exited_processes (i : Nat) : Option.Rel (Aged process status) (t.processes.get i)
    ((exited t process slot record status).processes.get i) := by
  rcases locateProcess_get hlocate with ⟨hlt, hget, hid⟩
  change Option.Rel _ _ (((t.processes.map (Option.map (adopt process))).set slot _).get i)
  rw [get_set _ _ hlt]
  by_cases hi : i = slot
  · rw [if_pos hi, hi, hget]
    exact Option.Rel.some (aged_bury status hid)
  · rw [if_neg hi, get_map (Option.map (adopt process)) rfl]
    cases hr : t.processes.get i with
    | none => exact Option.Rel.none
    | some r =>
      refine Option.Rel.some (aged_adopt status fun hc => hi ?_)
      exact slot_unique (by simp [maxProcesses]) h.named hr hget (by rw [hc, hid])

theorem exited_carried : Carried (· = process) t (exited t process slot record status) where
  processGenerations := rfl
  threadGenerations := rfl
  processes := fun i => rel_mono (fun _ _ haged => haged.carries) (exited_processes h hlocate i)
  threads := fun i => by
    change Option.Rel _ _ ((t.threads.map (Option.map (stop process))).get i)
    rw [get_map (Option.map (stop process)) rfl]
    cases t.threads.get i with
    | none => exact Option.Rel.none
    | some r => exact Option.Rel.some (sameThread_stop process r).1
  ended := by
    rintro r' p hr' howner rfl
    rcases holds_map.mp hr' with ⟨r, -, rfl⟩
    exact (sameThread_stop p r).2 ((sameThread_stop p r).1.process ▸ howner)

end Exited

section Reaped

variable (h : Inv t) {parent child : ProcessId} {status : Int32} {slot : Nat}
  {record : ProcessRecord} {threadSlot : Nat} {threadRecord : ThreadRecord}
  (hreapable : Reapable t parent child status slot record threadSlot threadRecord)

include h hreapable

theorem Reapable.lists_thread : Lists record threadRecord.id := by
  rcases holds_of_locate hreapable.located with ⟨hr, -⟩
  rcases h.lists record hr with ⟨thread, hlists⟩
  have hentries := hreapable.lists
  rw [hlists.entries, List.singleton_inj] at hentries
  rw [← hentries]
  exact hlists

section Listed

variable {generation : UInt16}
  (hsucc : Arena.checkedSucc (t.threadGenerations.get threadSlot) = some generation)
  (hr : t.processes.Holds r) (hlists : Lists r threadRecord.id)

include hsucc hr hlists

/-- Only the zombie itself, or nobody, owns the thread that goes, unless its
    slot is at its last generation. -/
theorem Reapable.owner_of_succ : threadRecord.process = some r.id := by
  rcases h.listed r threadRecord.id hr hlists with ⟨j, hj, hid, hwhere⟩
  have hslot : j = threadSlot := by
    have hslots := hreapable.threadNumber
    rw [hid, threadId_new_slot _ hj, Option.some.injEq] at hslots
    exact hslots
  rw [hslot] at hwhere
  rcases hwhere with hlast | ⟨found, hfound, hsame, howner⟩
  · rw [hlast] at hsucc
    cases hsucc
  · have heq : found = threadRecord := by
      refine holds_unique (by simp [maxThreads]) h.threadsNamed hfound
        ⟨threadSlot, hreapable.thread⟩ ?_
      rw [hsame]
    rw [← heq]
    exact howner

/-- The thread that goes is on the list of the zombie only, unless its slot is
    at its last generation. -/
theorem Reapable.lists_only : r.id = child := by
  rcases holds_of_locate hreapable.located with ⟨hrecord, hid⟩
  have howner := hreapable.owner_of_succ h hsucc hr hlists
  have howner' := hreapable.owner_of_succ h hsucc hrecord (hreapable.lists_thread h)
  rw [howner, Option.some.injEq, hid] at howner'
  exact howner'

end Listed

theorem Reapable.not_init : child ≠ ProcessId.init := by
  rintro rfl
  rcases holds_of_locate hreapable.located with ⟨hr, hid⟩
  have hrunning := (h.root record hr hid).1
  rw [hreapable.zombie] at hrunning
  cases hrunning

/-- A thread with an owner other than the zombie is not the one that goes. -/
theorem Reapable.owner_stays {r : ThreadRecord} {q : ProcessId} (hr : t.threads.Holds r)
    (hq : r.process = some q) (hne : r.id ≠ threadRecord.id) : q ≠ child := by
  rintro rfl
  rcases h.owned r q hr hq with ⟨-, owner, howner, hid, hlists, -⟩
  rcases holds_of_locate hreapable.located with ⟨hrecord, hrecordId⟩
  have hsame : owner = record := holds_unique (by simp [maxProcesses]) h.named howner hrecord
    (by rw [hid, hrecordId])
  rw [hsame] at hlists
  exact hne (hlists.unique (hreapable.lists_thread h))

theorem holds_tornThread {r : ThreadRecord} :
    (t.setThread threadSlot none).threads.Holds r ↔
      t.threads.Holds r ∧ r.id ≠ threadRecord.id := by
  refine (holds_clear (by simp [maxThreads]) h.threadsNamed hreapable.thread).trans ?_
  refine and_congr_right fun _ => not_congr ⟨ThreadId.ext, congrArg ThreadId.raw⟩

theorem holds_reaped {generation threadGeneration : UInt16} :
    (reaped t slot threadSlot generation threadGeneration).processes.Holds r ↔
      t.processes.Holds r ∧ r.id ≠ child := by
  rcases locateProcess_get hreapable.located with ⟨-, hget, hid⟩
  refine (holds_clear (by simp [maxProcesses]) h.named hget).trans ?_
  rw [hid]
  exact and_congr_right fun _ => not_congr ⟨ProcessId.ext, congrArg ProcessId.raw⟩

theorem inv_tornThread (hlast : Arena.checkedSucc (t.threadGenerations.get threadSlot) = none) :
    Inv (t.setThread threadSlot none) := by
  have hthreads : ∀ {r}, (t.setThread threadSlot none).threads.Holds r ↔
      t.threads.Holds r ∧ r.id ≠ threadRecord.id := holds_tornThread h hreapable
  exact
  { named := h.named
    threadsNamed := by
      have hnamed := named_clear h.threadsNamed threadSlot
        (t.threadGenerations.get threadSlot)
      rw [set_get] at hnamed
      exact hnamed
    firstGeneration := h.firstGeneration
    rooted := h.rooted
    root := h.root
    living := h.living
    parented := h.parented
    lists := h.lists
    listed := by
      intro r thread hr hlists
      rcases h.listed r thread hr hlists with ⟨j, hj, hid, hwhere⟩
      refine ⟨j, hj, hid, ?_⟩
      -- A thread that is missed now was in the slot at its last generation.
      by_cases hslot : j = threadSlot
      · left
        rw [hslot]
        exact checkedSucc_eq_none.mp hlast
      · refine hwhere.imp_right ?_
        rintro ⟨found, hfound, hsame, howner⟩
        refine ⟨found, hthreads.mpr ⟨hfound, fun hc => hslot ?_⟩, hsame, howner⟩
        have hslots := hreapable.threadNumber
        rw [← hc, hsame, hid, threadId_new_slot _ hj, Option.some.injEq] at hslots
        exact hslots
    owned := fun r p hr howner => h.owned r p (hthreads.mp hr).1 howner
    kernel := fun r hr hnone => h.kernel r (hthreads.mp hr).1 hnone
    apart := fun r q r' hr howner hr' hlists hne =>
      h.apart r q r' (hthreads.mp hr).1 howner hr' hlists hne }

theorem inv_reaped {threadGeneration generation : UInt16}
    (hsucc : Arena.checkedSucc (t.threadGenerations.get threadSlot) = some threadGeneration) :
    Inv (reaped t slot threadSlot generation threadGeneration) := by
  have hp : ∀ {r}, (reaped t slot threadSlot generation threadGeneration).processes.Holds r ↔
      t.processes.Holds r ∧ r.id ≠ child := holds_reaped h hreapable
  have ht : ∀ {r}, (reaped t slot threadSlot generation threadGeneration).threads.Holds r ↔
      t.threads.Holds r ∧ r.id ≠ threadRecord.id := holds_tornThread h hreapable
  have hchild := hreapable.not_init h
  exact
  { named := named_clear h.named slot generation
    threadsNamed := named_clear h.threadsNamed threadSlot threadGeneration
    firstGeneration := by
      change (t.processGenerations.set slot generation).get 0 = 0
      rw [get_set_other _ _ fun hc => ?_]
      · exact h.firstGeneration
      · rcases locateProcess_get hreapable.located with ⟨hlt, hget, hid⟩
        have hname : record.id = ProcessId.new slot (t.processGenerations.get slot) :=
          ProcessId.ext (h.named slot record hget)
        exact hchild (by rw [← hid, hname, (new_eq_init h hlt).mpr hc.symm])
    rooted := by
      intro r hr
      rcases h.rooted r (hp.mp hr).1 with ⟨root, hroot, hid⟩
      exact ⟨root, hp.mpr ⟨hroot, by rw [hid]; exact hchild.symm⟩, hid⟩
    root := fun r hr hid => h.root r (hp.mp hr).1 hid
    living := fun r hr => h.living r (hp.mp hr).1
    parented := by
      intro r hr hid
      rcases h.parented r (hp.mp hr).1 hid with ⟨p, hpar, hof, hrunning⟩
      refine ⟨p, hp.mpr ⟨hpar, ?_⟩, hof, hrunning⟩
      -- The zombie is nobody's parent.
      intro hc
      rcases holds_of_locate hreapable.located with ⟨hrecord, hrecordId⟩
      have hsame : p = record := holds_unique (by simp [maxProcesses]) h.named hpar hrecord
        (by rw [hc, hrecordId])
      rw [hsame, hreapable.zombie] at hrunning
      cases hrunning
    lists := fun r hr => h.lists r (hp.mp hr).1
    listed := by
      intro r thread hr hlists
      rcases hp.mp hr with ⟨hold, hne⟩
      rcases h.listed r thread hold hlists with ⟨j, hj, hid, hwhere⟩
      have hslot : j ≠ threadSlot := by
        rintro rfl
        have hsame : thread = threadRecord.id := by
          rw [hid]
          exact (ThreadId.ext (h.threadsNamed j threadRecord hreapable.thread)).symm
        exact hne (hreapable.lists_only h hsucc hold (hsame ▸ hlists))
      refine ⟨j, hj, ?_, ?_⟩
      · change thread = ThreadId.new j ((t.threadGenerations.set threadSlot _).get j)
        rw [get_set_other _ _ hslot]
        exact hid
      · change (t.threadGenerations.set threadSlot _).get j = 65535 ∨ _
        rw [get_set_other _ _ hslot]
        refine hwhere.imp_right ?_
        rintro ⟨found, hfound, hsame, howner⟩
        refine ⟨found, ht.mpr ⟨hfound, fun hc => hslot ?_⟩, hsame, howner⟩
        have hslots := hreapable.threadNumber
        rw [← hc, hsame, hid, threadId_new_slot _ hj, Option.some.injEq] at hslots
        exact hslots
    owned := by
      intro r p hr howner
      rcases ht.mp hr with ⟨hold, hne⟩
      rcases h.owned r p hold howner with ⟨huser, owner, hheld, hid, hrest⟩
      refine ⟨huser, owner, hp.mpr ⟨hheld, ?_⟩, hid, hrest⟩
      rw [hid]
      exact hreapable.owner_stays h hold howner hne
    kernel := fun r hr hnone => h.kernel r (ht.mp hr).1 hnone
    apart := fun r q r' hr howner hr' hlists hne =>
      h.apart r q r' (ht.mp hr).1 howner (hp.mp hr').1 hlists hne }

end Reaped

/-- Every change keeps the invariant. -/
theorem inv_change (h : Inv t) {e : Event} (hc : Change t e t') : Inv t' := by
  cases hc with
  | quiet htouched => exact inv_touched h htouched
  | spawned parent credentials hslot hfree hthreadSlot hthread hinit hparent =>
    exact inv_spawned h hslot hfree hthreadSlot hthread hinit hparent
  | kernel hthreadSlot hthread => exact inv_kernel h hthreadSlot hthread
  | exited status hprocess hlocate hrunning =>
    exact inv_carried h (exited_carried h hlocate) hprocess.symm
  | reaped hreapable hthread | tornProcess hreapable hthread => exact inv_reaped h hreapable hthread
  | tornThread hreapable hthread => exact inv_tornThread h hreapable hthread

theorem inv_step (h : Inv t) (call : Call) : Inv (step t call) :=
  inv_change h (step_change h.named h.singleThreaded call)

/-- Where there is a process there is init, and no change takes that away. -/
theorem change_inhabited (h : Inv t) (hany : ∃ r, t.processes.Holds r) {e : Event}
    (hc : Change t e t') : ∃ r, t'.processes.Holds r := by
  rcases hany with ⟨r, hr⟩
  rcases h.rooted r hr with ⟨root, hroot, hid⟩
  cases hc with
  | quiet htouched => exact (htouched.carried.process_forth hroot).imp fun _ => And.left
  | spawned _ _ hslot hfree => exact ⟨root, (holds_spawned hslot hfree).mpr (.inr hroot)⟩
  | kernel | tornThread => exact ⟨root, hroot⟩
  | exited _ _ hlocate =>
    exact ((exited_carried h hlocate).process_forth hroot).imp fun _ => And.left
  | reaped hreapable | tornProcess hreapable =>
    refine ⟨root, (holds_reaped h hreapable).mpr ⟨hroot, ?_⟩⟩
    rw [hid]
    exact (hreapable.not_init h).symm

end Preserved

theorem inv_new : Inv ProcessTable.new := by
  have hp : ∀ record, ¬ ProcessTable.new.processes.Holds record :=
    fun _ => not_holds_replicate
  have ht : ∀ record, ¬ ProcessTable.new.threads.Holds record :=
    fun _ => not_holds_replicate
  exact
  { named := fun i record hget => absurd ⟨i, hget⟩ (hp record)
    threadsNamed := fun i record hget => absurd ⟨i, hget⟩ (ht record)
    firstGeneration := rfl
    rooted := fun record hr => absurd hr (hp record)
    root := fun record hr => absurd hr (hp record)
    living := fun record hr => absurd hr (hp record)
    parented := fun record hr => absurd hr (hp record)
    lists := fun record hr => absurd hr (hp record)
    listed := fun record _ hr => absurd hr (hp record)
    owned := fun record _ hr => absurd hr (ht record)
    kernel := fun record hr => absurd hr (ht record)
    apart := fun record _ _ hr => absurd hr (ht record) }

/-- The invariant holds in every run. -/
theorem inv_run (calls : List Call) : Inv (run step ProcessTable.new calls) :=
  run_keeps step (P := Inv) (fun _ call h => inv_step h call) calls inv_new

/-! ### Looking up by name -/

section Names

variable {t : ProcessTable} (h : Inv t)

include h

theorem Inv.process_ok {id : ProcessId} :
    t.process id = .ok record ↔ t.processes.Holds record ∧ record.id = id := by
  rw [Process.process_ok]
  constructor
  · rintro ⟨slot, hlocate⟩
    exact holds_of_locate hlocate
  · rintro ⟨⟨slot, hget⟩, rfl⟩
    exact ⟨slot, (locate_iff (by simp [maxProcesses]) h.named).mpr ⟨hget, rfl⟩⟩

theorem Inv.thread_ok {id : ThreadId} {record : ThreadRecord} :
    t.thread id = .ok record ↔ t.threads.Holds record ∧ record.id = id := by
  rw [Process.thread_ok]
  constructor
  · rintro ⟨slot, hlocate⟩
    rcases locateThread_get hlocate with ⟨-, hget, hid⟩
    exact ⟨⟨slot, hget⟩, hid⟩
  · rintro ⟨⟨slot, hget⟩, rfl⟩
    exact ⟨slot, (locate_iff (by simp [maxThreads]) h.threadsNamed).mpr ⟨hget, rfl⟩⟩

end Names

theorem Lists.get (h : Lists record thread) (k : Nat) (thread' : ThreadId) :
    record.threads.get k = some thread' ↔ k = 0 ∧ thread' = thread := by
  rw [h, get_set _ _ (by simp [maxProcessThreads])]
  by_cases hk : k = 0
  · rw [if_pos hk, Option.some.injEq]
    exact ⟨fun heq => ⟨hk, heq.symm⟩, fun heq => heq.2.symm⟩
  · have hnone : (Slots.replicate maxProcessThreads (none : Option ThreadId)).get k = none :=
      get_replicate_default k
    rw [hnone]
    simp [hk]

/-! ### Runs in which no generation runs out -/

/-- Every thread on a list is there and belongs to the process that lists
    it. -/
def Whole (t : ProcessTable) : Prop :=
  ∀ record thread, t.processes.Holds record → Lists record thread →
    ∃ threadRecord, t.threads.Holds threadRecord ∧ threadRecord.id = thread ∧
      threadRecord.process = some record.id

theorem whole_carried {gone : ProcessId → Prop} (hw : Whole t) (hc : Carried gone t t') :
    Whole t' := by
  intro r' thread hr' hlists'
  rcases hc.process_back hr' with ⟨r, hr, hs⟩
  exact hc.found hs.id (hw r thread hr (hs.lists.mp hlists'))

theorem whole_change (h : Inv t) (hw : Whole t) {e : Event} (hc : Change t e t') (he : e ≠ .torn) :
    Whole t' := by
  intro r' thread hr' hlists'
  cases hc with
  | quiet htouched => exact whole_carried hw htouched.carried r' thread hr' hlists'
  | spawned parent credentials hslot hfree hthreadSlot hthread hinit hparent =>
    rcases (holds_spawned hslot hfree).mp hr' with rfl | hold
    · exact ⟨_, (holds_spawned_thread hthreadSlot hthread).mpr (.inl rfl),
        (hlists'.unique rfl).symm, rfl⟩
    · rcases hw r' thread hold hlists' with ⟨found, hfound, hrest⟩
      exact ⟨found, (holds_spawned_thread hthreadSlot hthread).mpr (.inr hfound), hrest⟩
  | kernel hthreadSlot hthread =>
    rcases hw r' thread hr' hlists' with ⟨found, hfound, hrest⟩
    exact ⟨found, (holds_set_some hthreadSlot hthread).mpr (.inr hfound), hrest⟩
  | exited status hprocess hlocate hrunning =>
    exact whole_carried hw (exited_carried h hlocate) r' thread hr' hlists'
  | @reaped parent child status slot record threadSlot threadRecord _ _ hreapable hthread _ =>
    rcases (holds_reaped h hreapable).mp hr' with ⟨hr, hne⟩
    rcases hw r' thread hr hlists' with ⟨found, hfound, hid, howner⟩
    refine ⟨found, (holds_tornThread h hreapable).mpr ⟨hfound, fun hc => hne ?_⟩, hid, howner⟩
    rw [← hid, hc] at hlists'
    exact hreapable.lists_only h hthread hr hlists'
  | tornThread | tornProcess => exact absurd rfl he

/-- No generation runs out in the request. -/
def Lasting (t : ProcessTable) (call : Call) : Prop :=
  outcome t call ≠ .error .generationExhausted

theorem event_torn {call : Call} :
    event t call = .torn ↔ outcome t call = .error .generationExhausted := by
  unfold event
  cases houtcome : outcome t call with
  | error e =>
    rw [eventOf_error]
    by_cases he : e = .generationExhausted
    · simp [he]
    · simp [he]
  | ok reply =>
    simp
    intro hc
    cases call <;> cases reply <;> cases hc

theorem whole_run (calls : List Call) (hlasting : Obeys step Lasting ProcessTable.new calls) :
    Whole (run step ProcessTable.new calls) := by
  refine (run_invariant step Lasting (fun t => Inv t ∧ Whole t) ?_ calls ProcessTable.new
    ⟨inv_new, ?_⟩ hlasting).2
  · rintro t call ⟨h, hw⟩ hcall
    have hc := step_change h.named h.singleThreaded call
    exact ⟨inv_change h hc, whole_change h hw hc fun he => hcall (event_torn.mp he)⟩
  · exact fun record _ hr => absurd hr not_holds_replicate

/-- Processes and threads refer to each other correctly: every record is named
    after its slot and generation, every thread on a list is there, runs user
    code and belongs to the process that lists it, every thread of a process
    is on the list of that process, once, and kernel threads belong to none. -/
structure CrossReferenced (t : ProcessTable) : Prop where
  processId : ∀ i record, t.processes.get i = some record →
    record.id = ProcessId.new i (t.processGenerations.get i)
  threadId : ∀ i record, t.threads.get i = some record →
    record.id = ThreadId.new i (t.threadGenerations.get i)
  listed : ∀ i record k thread, t.processes.get i = some record →
    record.threads.get k = some thread → ∃ threadRecord, t.thread thread = .ok threadRecord ∧
      threadRecord.kind = .user ∧ threadRecord.process = some record.id
  owned : ∀ i threadRecord p, t.threads.get i = some threadRecord →
    threadRecord.process = some p → ∃ record, t.process p = .ok record ∧
      ∃! k, record.threads.get k = some threadRecord.id
  kernel : ∀ i threadRecord, t.threads.get i = some threadRecord → threadRecord.kind = .kernel →
    threadRecord.process = none

theorem crossReferenced_of_inv (h : Inv t) (hw : Whole t) :
    CrossReferenced t where
  processId := fun i record hget => ProcessId.ext (h.named i record hget)
  threadId := fun i record hget => ThreadId.ext (h.threadsNamed i record hget)
  listed := by
    intro i record k thread hget hk
    rcases h.lists record ⟨i, hget⟩ with ⟨only, hlists⟩
    rcases (hlists.get k thread).mp hk with ⟨-, rfl⟩
    rcases hw record thread ⟨i, hget⟩ hlists with ⟨threadRecord, hthread, hid, howner⟩
    exact ⟨threadRecord, h.thread_ok.mpr ⟨hthread, hid⟩, (h.owned _ _ hthread howner).1, howner⟩
  owned := by
    intro i threadRecord p hget howner
    rcases h.owned threadRecord p ⟨i, hget⟩ howner with ⟨-, record, hr, hid, hlists, -⟩
    refine ⟨record, h.process_ok.mpr ⟨hr, hid⟩, 0, (hlists.get 0 _).mpr ⟨rfl, rfl⟩, ?_⟩
    intro k hk
    exact ((hlists.get k _).mp hk).1
  kernel := by
    intro i threadRecord hget hkind
    cases howner : threadRecord.process with
    | none => rfl
    | some p =>
      have huser := (h.owned threadRecord p ⟨i, hget⟩ howner).1
      rw [hkind] at huser
      cases huser

/-- As long as no request has run out of generations, processes and threads
    refer to each other correctly. -/
theorem run_cross_referenced (calls : List Call)
    (hlasting : Obeys step Lasting ProcessTable.new calls) :
    CrossReferenced (run step ProcessTable.new calls) :=
  crossReferenced_of_inv (inv_run calls) (whole_run calls hlasting)

/-- A child is spawned beside a kernel thread, exits, is waited for, and
    another takes its place. -/
def replacement : List Call :=
  [.createInit, .spawnChild ProcessId.init Credentials.bootstrap, .spawnKernelThread,
    .exit (ProcessId.new 1 0) 7, .wait ProcessId.init none,
    .spawnChild ProcessId.init Credentials.bootstrap]

theorem replacement_lasting : Obeys step Lasting ProcessTable.new replacement := by
  refine ⟨?_, ?_, ?_, ?_, ?_, ?_, trivial⟩
  all_goals
    unfold Lasting
    decide +kernel

theorem replacement_cross_referenced :
    CrossReferenced (run step ProcessTable.new replacement) :=
  run_cross_referenced replacement replacement_lasting

/-- Also past the last generation, an identity finds the process that has it, and the
    owner of a thread is found and lists it. -/
theorem owners_found (calls : List Call) :
    let t := run step ProcessTable.new calls
    (∀ id r, t.process id = .ok r ↔ t.processes.Holds r ∧ r.id = id) ∧
    ∀ id r owner, t.thread id = .ok r → r.process = some owner →
      ∃ process, t.process owner = .ok process ∧ Lists process id := by
  intro t
  have h : Inv t := inv_run calls
  refine ⟨fun _ _ => h.process_ok, fun id r owner hfound hown => ?_⟩
  rcases h.thread_ok.mp hfound with ⟨hholds, rfl⟩
  rcases (h.owned r owner hholds hown).2 with ⟨process, hheld, hid, hlists, -⟩
  exact ⟨process, h.process_ok.mpr ⟨hheld, hid⟩, hlists⟩

/-- Init runs and has no parent, after exactly the runs in which there ever was a
    process. -/
theorem init_stays (calls : List Call) :
    (∃ root, (run step ProcessTable.new calls).process .init = .ok root ∧
      root.state = .running ∧ root.parent = none) ↔
    ∃ k id r, (run step ProcessTable.new (calls.take k)).process id = .ok r := by
  constructor
  · rintro ⟨root, hroot, -⟩
    exact ⟨calls.length, _, root, by rwa [List.take_length]⟩
  · rintro ⟨k, id, r, hr⟩
    have h := inv_run (calls.take k)
    have hend := run_keeps step (P := fun t => Inv t ∧ ∃ r, t.processes.Holds r)
      (fun t call h => ⟨inv_step h.1 call,
        change_inhabited h.1 h.2 (step_change h.1.named h.1.singleThreaded call)⟩)
      (calls.drop k) ⟨h, r, (h.process_ok.mp hr).1⟩
    rw [← run_append, List.take_append_drop] at hend
    rcases hend with ⟨h, r, hr⟩
    rcases h.rooted r hr with ⟨root, hroot, hid⟩
    exact ⟨root, h.process_ok.mpr ⟨hroot, hid⟩, h.root root hroot hid⟩

end Process

end Norx
