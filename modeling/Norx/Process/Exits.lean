import Norx.Process.Invariant

/-!
# Exit and Wait

What a run says about the end of processes. Every process other than init has
a running parent; a zombie carries the status its exit was given; the threads
of a zombie have exited, and a thread that has exited does nothing more until
it is freed. Every exit is reported by at most one successful wait, to the
parent the child has at that time, with the status of that exit.

The last part is about the history of a run. `Recorded` reads the life of a
process off the list of events: the last time it was spawned, by whom, whether
the spawner has exited since, and whether it has exited itself. Each event
extends the lives of the processes in the table (`recorded_change`), and a
successful wait closes the life of the child (`reported_change`). All of it
holds in every run, also in those in which identities are used again because
the generations have run out: a life starts where the process was last spawned.

## Theorems

* `recorded_change`, `reported_change`: One more event.
* `exited_stays`: A thread that has exited stays that way.
* `exits_and_waits`: What holds in every run.
-/

namespace Norx

namespace Process

open Slots List

/-- The event is about the process. -/
def Event.Concerns (process : ProcessId) : Event → Prop
  | spawned _ process' _ => process' = process
  | exited process' _ => process' = process
  | reaped _ child _ => child = process
  | _ => False

/-- None of the events is about the process. -/
def Silent (process : ProcessId) (es : List Event) : Prop := ∀ e ∈ es, ¬ e.Concerns process

/-- The parent of a process, as events go by after the spawner spawned it: the
    spawner, or init once the spawner has exited. -/
def ParentAfter (spawner : ProcessId) (es : List Event) (parent : ProcessId) : Prop :=
  ((∃ status, Event.exited spawner status ∈ es) ∧ parent = ProcessId.init) ∨
    ((∀ status, Event.exited spawner status ∉ es) ∧ parent = spawner)

/-- The events since a process was spawned: it is still running, or it has
    exited with its status. -/
inductive Lived (record : ProcessRecord) : List Event → Prop
  | running {life : List Event} (hstate : record.state = .running)
      (hsilent : Silent record.id life) : Lived record life
  | zombie {first later : List Event} (status : Int32) (hstate : record.state = .zombie)
      (hstatus : record.exitStatus = some status) (hfirst : Silent record.id first)
      (hlater : Silent record.id later) :
      Lived record (first ++ .exited record.id status :: later)

/-- The events tell the life of a process in the table. -/
def Recorded (es : List Event) (record : ProcessRecord) : Prop :=
  ∃ older spawner thread life parent,
    es = older ++ .spawned (some spawner) record.id thread :: life ∧
      record.parent = some parent ∧ ParentAfter spawner life parent ∧ Lived record life

/-- The events tell the life of a process that is waited for: it was spawned,
    it exited with the status, nothing else happened to it, and the one that
    waits is its parent by then. -/
def Reported (es : List Event) (parent child : ProcessId) (status : Int32) : Prop :=
  ∃ older spawner thread first later,
    es = older ++ .spawned (some spawner) child thread :: (first ++ .exited child status :: later) ∧
      Silent child first ∧ Silent child later ∧
      ParentAfter spawner (first ++ .exited child status :: later) parent

/-! ### One more event -/

variable {es : List Event} {e : Event} {process : ProcessId}

theorem silent_snoc (h : Silent process es) (he : ¬ e.Concerns process) :
    Silent process (es ++ [e]) := by
  intro e' he'
  rcases mem_append.mp he' with hold | hnew
  · exact h e' hold
  · rw [mem_singleton.mp hnew]
    exact he

variable {parent : ProcessId}

/-- An event other than the exit of the spawner does not change the parent. -/
theorem parentAfter_snoc {spawner : ProcessId} (h : ParentAfter spawner es parent)
    (he : ∀ status, e ≠ .exited spawner status) : ParentAfter spawner (es ++ [e]) parent := by
  rcases h with ⟨⟨status, hmem⟩, hparent⟩ | ⟨hnone, hparent⟩
  · exact .inl ⟨⟨status, mem_append_left _ hmem⟩, hparent⟩
  · refine .inr ⟨fun status hmem => ?_, hparent⟩
    rcases mem_append.mp hmem with hold | hnew
    · exact hnone status hold
    · exact he status (mem_singleton.mp hnew).symm

/-- The exit of a process hands its children to init. -/
theorem parentAfter_exited {spawner process : ProcessId} (status : Int32)
    (h : ParentAfter spawner es parent) (hinit : process ≠ ProcessId.init) :
    ParentAfter spawner (es ++ [.exited process status])
      (if parent = process then ProcessId.init else parent) := by
  by_cases hspawner : process = spawner
  · have hmem : Event.exited spawner status ∈ es ++ [.exited process status] := by
      rw [hspawner]
      exact mem_append_right _ (mem_singleton.mpr rfl)
    refine .inl ⟨⟨status, hmem⟩, ?_⟩
    rcases h with ⟨-, rfl⟩ | ⟨-, rfl⟩
    · rw [if_neg hinit.symm]
    · rw [if_pos hspawner.symm]
  · have hparent : (if parent = process then ProcessId.init else parent) = parent := by
      rcases h with ⟨-, rfl⟩ | ⟨-, rfl⟩
      · rw [if_neg hinit.symm]
      · rw [if_neg fun hc => hspawner hc.symm]
    rw [hparent]
    refine parentAfter_snoc h fun status' hc => hspawner ?_
    injection hc

variable {record record' : ProcessRecord}

/-- An event that is not about the process extends its life. -/
theorem lived_snoc {life : List Event} (h : Lived record life) (hid : record'.id = record.id)
    (hstate : record'.state = record.state) (hstatus : record'.exitStatus = record.exitStatus)
    (hsilent : ¬ e.Concerns record.id) : Lived record' (life ++ [e]) := by
  cases h with
  | running hrunning hquiet =>
    refine Lived.running (hstate.trans hrunning) ?_
    rw [hid]
    exact silent_snoc hquiet hsilent
  | zombie status hzombie hexit hfirst hlater =>
    rw [append_assoc, ← hid]
    refine Lived.zombie status (hstate.trans hzombie) (hstatus.trans hexit) ?_ ?_
    · rw [hid]
      exact hfirst
    · rw [hid]
      exact silent_snoc hlater hsilent

theorem recorded_snoc (h : Recorded es record) (hid : record'.id = record.id)
    (hparent : record'.parent = record.parent) (hstate : record'.state = record.state)
    (hstatus : record'.exitStatus = record.exitStatus) (hsilent : ¬ e.Concerns record.id)
    (he : ∀ process status, e ≠ .exited process status) : Recorded (es ++ [e]) record' := by
  rcases h with ⟨older, spawner, thread, life, parent, rfl, hof, hafter, hlived⟩
  refine ⟨older, spawner, thread, life ++ [e], parent, ?_, hparent.trans hof,
    parentAfter_snoc hafter (he spawner), lived_snoc hlived hid hstate hstatus hsilent⟩
  rw [append_assoc, cons_append, hid]

variable {status : Int32}

theorem recorded_aged (h : Recorded es record) (haged : Aged process status record record')
    (hinit : process ≠ ProcessId.init) (hrunning : record.id = process → record.state = .running) :
    Recorded (es ++ [.exited process status]) record' := by
  rcases h with ⟨older, spawner, thread, life, parent, rfl, hof, hafter, hlived⟩
  refine ⟨older, spawner, thread, life ++ [.exited process status],
    if parent = process then ProcessId.init else parent, ?_, ?_,
    parentAfter_exited status hafter hinit, ?_⟩
  · rw [append_assoc, cons_append, haged.id]
  · rw [haged.parent, hof]
    by_cases hleft : parent = process
    · rw [if_pos hleft, if_pos (by rw [hleft])]
    · rw [if_neg hleft, if_neg fun hc => hleft (Option.some.inj hc)]
  · rcases haged.fate with ⟨hid, hzombie, hstatus⟩ | ⟨hid, hstate, hstatus⟩
    · cases hlived with
      | running _ hquiet =>
        have hlast : Event.exited process status = .exited record'.id status := by
          rw [haged.id, hid]
        rw [hlast]
        refine Lived.zombie status hzombie hstatus ?_ fun e he => by cases he
        rw [haged.id]
        exact hquiet
      | zombie _ hstate _ _ _ =>
        rw [hrunning hid] at hstate
        cases hstate
    · exact lived_snoc hlived haged.id hstate hstatus fun hc => hid hc.symm

variable {child : ProcessId}

section Change

variable {es : List Event} {t t' : ProcessTable}

/-- Every event extends the lives of the processes in the table. -/
theorem recorded_change (h : Inv t)
    (hrecorded : ∀ r, t.processes.Holds r → r.id ≠ ProcessId.init → Recorded es r)
    (hc : Change t e t') : ∀ r', t'.processes.Holds r' → r'.id ≠ ProcessId.init →
      Recorded (es ++ [e]) r' := by
  intro r' hr' hinit
  cases hc with
  | quiet htouched =>
    rcases holds_rel_back htouched.processes hr' with ⟨r, hr, hsame⟩
    rw [hsame.id] at hinit
    exact recorded_snoc (hrecorded r hr hinit) hsame.id hsame.parent hsame.state
      hsame.exitStatus (fun hc => hc) (fun _ _ hc => by cases hc)
  | spawned parent credentials hslot hfree hthreadSlot hthread hfirst hparent =>
    rcases (holds_spawned hslot hfree).mp hr' with rfl | hr
    · cases parent with
      | none => exact absurd ((new_eq_init h hslot).mpr (hfirst rfl)) hinit
      | some spawner =>
        refine ⟨es, spawner, _, [], spawner, rfl, rfl, .inr ⟨fun _ hc => ?_, rfl⟩,
          Lived.running rfl fun _ hc => ?_⟩
        · cases hc
        · cases hc
    · exact recorded_snoc (hrecorded r' hr hinit) rfl rfl rfl rfl
        (fun hc => fresh_process h hslot hfree hr hc.symm) (fun _ _ hc => by cases hc)
  | kernel | tornThread =>
    exact recorded_snoc (hrecorded r' hr' hinit) rfl rfl rfl rfl (fun hc => hc)
      (fun _ _ hc => by cases hc)
  | exited status hprocess hlocate hrunning =>
    rcases holds_rel_back (exited_processes h hlocate) hr' with ⟨r, hr, haged⟩
    rw [haged.id] at hinit
    refine recorded_aged (hrecorded r hr hinit) haged hprocess fun hid => ?_
    rcases holds_of_locate hlocate with ⟨hheld, hheldId⟩
    rw [Arena.holds_unique (by simp [maxProcesses]) h.named hr hheld (by rw [hid, hheldId])]
    exact hrunning
  | reaped hreapable hthread hprocess =>
    rcases (holds_reaped h hreapable).mp hr' with ⟨hr, hne⟩
    exact recorded_snoc (hrecorded r' hr hinit) rfl rfl rfl rfl (fun hc => hne hc.symm)
      (fun _ _ hc => by cases hc)
  | tornProcess hreapable hthread hprocess =>
    rcases (holds_reaped h hreapable).mp hr' with ⟨hr, -⟩
    exact recorded_snoc (hrecorded r' hr hinit) rfl rfl rfl rfl (fun hc => hc)
      (fun _ _ hc => by cases hc)

/-- A successful wait finds a zombie child of the one that waits. -/
theorem reaped_zombie (hc : Change t (.reaped parent child status) t') :
    ∃ record, t.process child = .ok record ∧ record.parent = some parent ∧
      record.state = .zombie ∧ record.exitStatus = some status := by
  cases hc with
  | reaped hreapable hthread hprocess =>
    exact ⟨_, process_ok.mpr ⟨_, hreapable.located⟩, hreapable.ofParent, hreapable.zombie,
      hreapable.exitStatus⟩

/-- A successful wait reports the life of the child. -/
theorem reported_change (h : Inv t)
    (hrecorded : ∀ r, t.processes.Holds r → r.id ≠ ProcessId.init → Recorded es r)
    (hc : Change t (.reaped parent child status) t') : Reported es parent child status := by
  rcases reaped_zombie hc with ⟨record, hprocess, hof, hzombie, hstatus⟩
  rcases h.process_ok.mp hprocess with ⟨hr, rfl⟩
  have hinit : record.id ≠ ProcessId.init := by
    intro hid
    rw [(h.root record hr hid).1] at hzombie
    cases hzombie
  rcases hrecorded record hr hinit with
    ⟨older, spawner, thread, life, parent', rfl, hof', hafter, hlived⟩
  rw [hof, Option.some.injEq] at hof'
  cases hlived with
  | running hrunning _ =>
    rw [hzombie] at hrunning
    cases hrunning
  | zombie status' _ hstatus' hfirst hlater =>
    rw [hstatus, Option.some.injEq] at hstatus'
    subst hstatus' hof'
    exact ⟨older, spawner, thread, _, _, rfl, hfirst, hlater, hafter⟩

/-- A thread that has exited keeps its name and its state until it is
    freed, and only a wait frees it. -/
theorem exited_stays (hc : Change t e t') {i : Nat} {record : ThreadRecord}
    (hget : t.threads.get i = some record) (hexited : record.state = .exited) :
    (∃ record', t'.threads.get i = some record' ∧ record'.id = record.id ∧
      record'.state = .exited) ∨
    (t'.threads.get i = none ∧ (e = .torn ∨ ∃ parent child status, e = .reaped parent child status)) := by
  -- A slot that is written to was free, and one that is emptied may be the thread's.
  have hfresh : ∀ {slot : Nat} {a : Option ThreadRecord}, t.threads.get slot = none →
      (t.threads.set slot a).get i = some record := by
    intro slot a hfree
    rw [get_set_other _ _ fun hi => ?_]
    · exact hget
    · rw [← hi, hget] at hfree
      cases hfree
  have hfreed : ∀ {slot : Nat} {r : ThreadRecord}, t.threads.get slot = some r →
      (t.threads.set slot none).get i = some record ∨ (t.threads.set slot none).get i = none := by
    intro slot r hr
    rw [get_set _ _ (Arena.lt_of_get_some hr)]
    split
    · exact .inr rfl
    · exact .inl hget
  cases hc with
  | quiet htouched =>
    rcases rel_some_left (htouched.threads i) hget with ⟨record', hget', hsame⟩
    exact .inl ⟨record', hget', hsame.id, hsame.exited hexited⟩
  | spawned parent credentials hslot hfree hthreadSlot hthread hinit hparent =>
    exact .inl ⟨record, hfresh hthread, rfl, hexited⟩
  | kernel hthreadSlot hthread => exact .inl ⟨record, hfresh hthread, rfl, hexited⟩
  | @exited process _ _ status hprocess hlocate hrunning =>
    have hsame := (sameThread_stop process record).1
    refine .inl ⟨stop process record, ?_, hsame.id, hsame.exited hexited⟩
    change (t.threads.map (Option.map (stop process))).get i = _
    rw [get_map (Option.map (stop process)) rfl, hget, Option.map_some]
  | reaped hreapable hthread hprocess =>
    rcases hfreed hreapable.thread with hkept | hgone
    · exact .inl ⟨record, hkept, rfl, hexited⟩
    · exact .inr ⟨hgone, .inr ⟨_, _, _, rfl⟩⟩
  | tornThread hreapable | tornProcess hreapable =>
    rcases hfreed hreapable.thread with hkept | hgone
    · exact .inl ⟨record, hkept, rfl, hexited⟩
    · exact .inr ⟨hgone, .inl rfl⟩

end Change

/-! ### Whole histories -/

/-- Everything the events of a run tell about its table. -/
structure Chronicle (es : List Event) (t : ProcessTable) : Prop where
  inv : Inv t
  recorded : ∀ r, t.processes.Holds r → r.id ≠ ProcessId.init → Recorded es r
  reported : ∀ before parent child status later,
    es = before ++ .reaped parent child status :: later → Reported before parent child status

theorem chronicle_step (es : List Event) (t : ProcessTable) (call : Call) (h : Chronicle es t) :
    Chronicle (es ++ [event t call]) (step t call) := by
  have hc := step_change h.inv.named h.inv.singleThreaded call
  refine ⟨inv_change h.inv hc, recorded_change h.inv h.recorded hc, ?_⟩
  intro before parent child status later hsplit
  rcases eq_nil_or_concat later with rfl | ⟨later', last, rfl⟩
  · -- The last event is the wait itself.
    rcases append_inj' hsplit rfl with ⟨rfl, hlast⟩
    rw [singleton_inj.mp hlast] at hc
    exact reported_change h.inv h.recorded hc
  · rw [concat_eq_append, ← cons_append, ← append_assoc] at hsplit
    exact h.reported before parent child status later' (append_inj' hsplit rfl).1

theorem chronicle_run (calls : List Call) :
    Chronicle (trace step event ProcessTable.new calls) (run step ProcessTable.new calls) := by
  refine run_history step (fun _ _ => True) event Chronicle
    (fun es t call h _ => chronicle_step es t call h) calls [] ProcessTable.new ?_
    (obeys_of_forall step _ (fun _ _ => trivial) _ _)
  refine ⟨inv_new, fun r hr => absurd hr not_holds_replicate, ?_⟩
  intro before parent child status later hsplit
  exact absurd hsplit.symm (by simp)

/-- The wait at one place of the history reports the exit at another: the same
    process, the same status, and nothing about the process in between. -/
def Reports (es : List Event) (k m : Nat) : Prop :=
  ∃ parent child status, es[k]? = some (.exited child status) ∧
    es[m]? = some (.reaped parent child status) ∧ k < m ∧
    ∀ n e, k < n → n < m → es[n]? = some e → ¬ e.Concerns child

/-- An exit is reported once at most: of two waits the later would have the
    earlier in between. -/
theorem reports_once {k m m' : Nat} (h : Reports es k m) (h' : Reports es k m') : m = m' := by
  rcases h with ⟨parent, child, status, hexit, hwait, hlt, hquiet⟩
  rcases h' with ⟨parent', child', status', hexit', hwait', hlt', hquiet'⟩
  rw [hexit, Option.some.injEq] at hexit'
  injection hexit' with hchild _
  by_contra hne
  rcases Nat.lt_or_gt_of_ne hne with hbefore | hafter
  · exact hquiet' m _ hlt hbefore hwait hchild
  · exact hquiet m' _ hlt' hafter hwait' hchild.symm

/-- A wait reports one exit at most. -/
theorem reports_unique {k k' m : Nat} (h : Reports es k m) (h' : Reports es k' m) : k = k' := by
  rcases h with ⟨parent, child, status, hexit, hwait, hlt, hquiet⟩
  rcases h' with ⟨parent', child', status', hexit', hwait', hlt', hquiet'⟩
  rw [hwait, Option.some.injEq] at hwait'
  injection hwait' with _ hchild _
  by_contra hne
  rcases Nat.lt_or_gt_of_ne hne with hbefore | hafter
  · exact hquiet k' _ hbefore hlt' hexit' hchild.symm
  · exact hquiet' k _ hafter hlt hexit hchild

/-- The exit a reported life tells of. -/
theorem reports_of_reported {before later : List Event} (h : Reported before parent child status) :
    ∃ k, Reports (before ++ .reaped parent child status :: later) k before.length := by
  rcases h with ⟨older, spawner, thread, first, last, rfl, -, hsilent, -⟩
  -- The history up to the exit, the exit, and what is between it and the wait.
  have hsplit : older ++ .spawned (some spawner) child thread ::
      (first ++ .exited child status :: last)
      = (older ++ .spawned (some spawner) child thread :: first) ++
        .exited child status :: last := by
    simp
  rw [hsplit]
  generalize older ++ .spawned (some spawner) child thread :: first = start
  refine ⟨start.length, parent, child, status, ?_, ?_, ?_, ?_⟩
  · simp
  · simp
  · simp
  · intro n e hn hm hget
    rw [append_assoc, List.getElem?_append_right (by omega), cons_append,
      List.getElem?_cons, if_neg (by omega), List.getElem?_append_left] at hget
    · exact hsilent e (mem_of_getElem? hget)
    · simp at hm
      omega

/-- What exit and wait guarantee, about the history of a run and the table at
    its end. -/
structure ExitsAndWaits (es : List Event) (t : ProcessTable) : Prop where
  /-- Every process other than init has a parent that exists and is running. -/
  parents : ∀ i record, t.processes.get i = some record → record.id ≠ ProcessId.init →
    ∃ p parent, record.parent = some p ∧ t.process p = .ok parent ∧ parent.state = .running
  /-- The status of a zombie is that of its exit, after which nothing has
      happened to it. -/
  statuses : ∀ i record, t.processes.get i = some record → record.state = .zombie →
    ∃ status before later, record.exitStatus = some status ∧
      es = before ++ .exited record.id status :: later ∧ Silent record.id later
  /-- The threads of a zombie have exited. -/
  stopped : ∀ i thread p record, t.threads.get i = some thread → thread.process = some p →
    t.process p = .ok record → record.state = .zombie → thread.state = .exited
  /-- A thread that has exited stays so until a wait frees it. -/
  ended : ∀ call i thread, t.threads.get i = some thread → thread.state = .exited →
    (∃ thread', (step t call).threads.get i = some thread' ∧ thread'.id = thread.id ∧
      thread'.state = .exited) ∨
    ((step t call).threads.get i = none ∧ (event t call = .torn ∨
      ∃ parent child status, event t call = .reaped parent child status))
  /-- A wait that succeeds is made by the parent the child has then, and
      returns its status. -/
  waits : ∀ call parent child status, event t call = .reaped parent child status →
    ∃ record, t.process child = .ok record ∧ record.parent = some parent ∧
      record.state = .zombie ∧ record.exitStatus = some status
  /-- That parent is the spawner, or init if the spawner has exited since. -/
  spawners : ∀ before parent child status later,
    es = before ++ .reaped parent child status :: later → Reported before parent child status
  /-- A wait that succeeded reports exactly one exit. -/
  reports : ∀ m parent child status, es[m]? = some (.reaped parent child status) →
    ∃! k, Reports es k m
  /-- No two waits report the same exit. -/
  once : ∀ k m m', Reports es k m → Reports es k m' → m = m'

theorem Chronicle.exitsAndWaits {t : ProcessTable} (h : Chronicle es t) :
    ExitsAndWaits es t where
  parents := by
    intro i record hget hinit
    rcases h.inv.parented record ⟨i, hget⟩ hinit with ⟨parent, hparent, hof, hrunning⟩
    exact ⟨parent.id, parent, hof, h.inv.process_ok.mpr ⟨hparent, rfl⟩, hrunning⟩
  statuses := by
    intro i record hget hzombie
    have hinit : record.id ≠ ProcessId.init := by
      intro hid
      rw [(h.inv.root record ⟨i, hget⟩ hid).1] at hzombie
      cases hzombie
    rcases h.recorded record ⟨i, hget⟩ hinit with
      ⟨older, spawner, thread, life, parent, rfl, -, -, hlived⟩
    cases hlived with
    | running hrunning _ =>
      rw [hzombie] at hrunning
      cases hrunning
    | @zombie first later status _ hstatus _ hlater =>
      refine ⟨status, older ++ .spawned (some spawner) record.id thread :: first, later, hstatus,
        ?_, hlater⟩
      simp
  stopped := by
    intro i thread p record hget howner hprocess hzombie
    rcases h.inv.owned thread p ⟨i, hget⟩ howner with ⟨-, owner, hheld, hid, -, hexited⟩
    rcases h.inv.process_ok.mp hprocess with ⟨hr, hid'⟩
    have hsame : owner = record := Arena.holds_unique (by simp [maxProcesses]) h.inv.named hheld hr
      (by rw [hid, hid'])
    exact hexited (hsame ▸ hzombie)
  ended := fun call i thread hget hexited =>
    exited_stays (step_change h.inv.named h.inv.singleThreaded call) hget hexited
  waits := by
    intro call parent child status hevent
    have hc := step_change h.inv.named h.inv.singleThreaded call
    rw [hevent] at hc
    exact reaped_zombie hc
  spawners := h.reported
  reports := by
    intro m parent child status hget
    rcases List.getElem?_eq_some_iff.mp hget with ⟨hlt, hvalue⟩
    have hsplit : es = es.take m ++ .reaped parent child status :: es.drop (m + 1) := by
      rw [← hvalue, cons_getElem_drop_succ, take_append_drop]
    have hlength : (es.take m).length = m := by
      rw [length_take]
      omega
    have hreports : ∃ k, Reports (es.take m ++ .reaped parent child status :: es.drop (m + 1)) k
        (es.take m).length := reports_of_reported (h.reported _ _ _ _ _ hsplit)
    rcases hreports with ⟨k, hk⟩
    rw [← hsplit, hlength] at hk
    exact ⟨k, hk, fun k' hk' => reports_unique hk' hk⟩
  once := fun k m m' hk hk' => reports_once hk hk'

/-- What exit and wait guarantee holds in every run. -/
theorem exits_and_waits (calls : List Call) :
    ExitsAndWaits (trace step event ProcessTable.new calls) (run step ProcessTable.new calls) :=
  (chronicle_run calls).exitsAndWaits

end Process

end Norx
