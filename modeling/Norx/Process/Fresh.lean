import Norx.Process.Invariant

/-!
# Identities and the End of the Generations

No two creations return the same identity, a removed process and its thread
are never found again, and waiting for one process does not free the thread of
another. All of it rests on the generations going up (`Arena.Evolves`), and
so on no request having run out of them: `wait` empties the slot of the thread
before it looks for the next generation, and when there is none the slot is
free with its old generation and offers its old name again.

Requests that fail leave the table as it was, with that one exception. A
failed request has changed the table exactly if it ran out of generations.

The runs that get there spawn a child, let it exit and wait for it, again and
again: `aged g` is the table after `g` rounds, and after 65535 of them the
generation of the second slot is the last.

## Theorems

* `identities_fresh`: What holds as long as no generation has run out.
* `thread_identity_returns`: An identity that is created twice.
* `failed_call_unchanged_iff`: Exactly the requests that ran out of
  generations fail with a change.
* `failed_wait_frees_thread`: One that does.
-/

namespace Norx

namespace Process

open Fallible Slots Arena

/-- The process a request created. -/
def Event.newProcess : Event → Option ProcessId
  | spawned _ process _ => some process
  | _ => none

/-- The thread a request created. -/
def Event.newThread : Event → Option ThreadId
  | spawned _ _ thread => some thread
  | kernel thread => some thread
  | _ => none

/-! ### Slots move on -/

variable {e : Event} {id : ProcessId}

section Evolves

variable {t t' : ProcessTable}

theorem evolves_processes (hc : Change t e t') (he : e ≠ .torn) :
    Arena.Evolves t.processes t'.processes t.processGenerations t'.processGenerations
      (·.id.raw) := by
  cases hc with
  | quiet htouched =>
    rw [htouched.processGenerations]
    exact evolves_rel (fun _ _ hs => congrArg ProcessId.raw hs.id) htouched.processes
  | spawned parent credentials hslot hfree hthreadSlot hthread hinit hparent =>
    exact evolves_set_some hslot hfree
  | kernel hthreadSlot hthread =>
    exact evolves_rel (fun _ _ hs => congrArg ProcessId.raw (SameProcess.id hs))
      (Touched.refl t).processes
  | @exited process slot record status hprocess hlocate hrunning =>
    rcases locateProcess_get hlocate with ⟨hlt, hget, -⟩
    refine fun i => .inr ⟨rfl, fun r hr => ?_⟩
    change ∃ r', ((t.processes.map (Option.map (adopt process))).set slot _).get i = some r' ∧ _
    rw [get_set _ _ hlt]
    by_cases hi : i = slot
    · rw [hi, hget, Option.some.injEq] at hr
      rw [← hr]
      exact ⟨_, if_pos hi, congrArg ProcessId.raw (adopt_id process record)⟩
    · refine ⟨adopt process r, ?_, congrArg ProcessId.raw (adopt_id process r)⟩
      rw [if_neg hi, get_map (Option.map (adopt process)) rfl, hr, Option.map_some]
  | reaped hreapable hthread hprocess =>
    exact evolves_clear (locateProcess_get hreapable.located).1 hprocess
  | tornThread | tornProcess => exact absurd rfl he

theorem evolves_threads (hc : Change t e t') (he : e ≠ .torn) :
    Arena.Evolves t.threads t'.threads t.threadGenerations t'.threadGenerations
      (·.id.raw) := by
  cases hc with
  | quiet htouched =>
    rw [htouched.threadGenerations]
    exact evolves_rel (fun _ _ hs => congrArg ThreadId.raw hs.id) htouched.threads
  | spawned _ _ _ _ hthreadSlot hthread | kernel hthreadSlot hthread =>
    exact evolves_set_some hthreadSlot hthread
  | @exited process slot record status hprocess hlocate hrunning =>
    refine fun i => .inr ⟨rfl, fun r hr => ⟨stop process r, ?_,
      congrArg ThreadId.raw (sameThread_stop process r).1.id⟩⟩
    change (t.threads.map (Option.map (stop process))).get i = _
    rw [get_map (Option.map (stop process)) rfl, hr, Option.map_some]
  | reaped hreapable hthread hprocess =>
    exact evolves_clear (lt_of_get_some hreapable.thread) hthread
  | tornThread | tornProcess => exact absurd rfl he

/-- A created process had not been created before, and has been now. -/
theorem newProcess_change (hc : Change t e t') (hid : e.newProcess = some id) :
    ¬ Arena.Given t.processes t.processGenerations (·.id.raw) id.raw ∧
      Arena.Given t'.processes t'.processGenerations (·.id.raw) id.raw := by
  cases hc with
  | spawned parent credentials hslot hfree hthreadSlot hthread hinit hparent =>
    cases hid
    refine given_set (by simp [maxProcesses]) hslot hfree ?_
    rfl
  | _ => cases hid

theorem newThread_change (hc : Change t e t') {id : ThreadId} (hid : e.newThread = some id) :
    ¬ Arena.Given t.threads t.threadGenerations (·.id.raw) id.raw ∧
      Arena.Given t'.threads t'.threadGenerations (·.id.raw) id.raw := by
  cases hc with
  | spawned _ _ _ _ hthreadSlot hthread | kernel hthreadSlot hthread =>
    cases hid
    refine given_set (by simp [maxThreads]) hthreadSlot hthread ?_
    rfl
  | _ => cases hid

end Evolves

/-! ### No identity is created twice -/

/-- One more identity at the end of a list without duplicates: it was not
    counted among those given out, and is from now on. -/
theorem nodup_extend {α : Type} {ids : List α} {new : Option α} {G G' : α → Prop}
    (hnodup : ids.Nodup) (hall : ∀ a ∈ ids, G a) (hmono : ∀ a, G a → G' a)
    (hnew : ∀ a, new = some a → ¬ G a ∧ G' a) :
    (ids ++ new.toList).Nodup ∧ ∀ a ∈ ids ++ new.toList, G' a := by
  cases new with
  | none =>
    rw [Option.toList_none, List.append_nil]
    exact ⟨hnodup, fun a ha => hmono a (hall a ha)⟩
  | some a =>
    rcases hnew a rfl with ⟨hnot, hnow⟩
    refine ⟨List.nodup_append.mpr ⟨hnodup, List.nodup_singleton a, ?_⟩, ?_⟩
    · intro b hb c hc hbc
      rw [hbc, List.mem_singleton.mp hc] at hb
      exact hnot (hall a hb)
    · intro b hb
      rcases List.mem_append.mp hb with hold | hlast
      · exact hmono b (hall b hold)
      · rw [List.mem_singleton.mp hlast]
        exact hnow

theorem filterMap_snoc {α β : Type} (f : α → Option β) (as : List α) (a : α) :
    (as ++ [a]).filterMap f = as.filterMap f ++ (f a).toList := by
  cases hf : f a with
  | none => simp [hf]
  | some b => simp [hf]

/-- The identities created so far are distinct and all given out. -/
structure GivenOut (es : List Event) (t : ProcessTable) : Prop where
  inv : Inv t
  processes : (es.filterMap Event.newProcess).Nodup ∧ ∀ id ∈ es.filterMap Event.newProcess,
    Arena.Given t.processes t.processGenerations (·.id.raw) id.raw
  threads : (es.filterMap Event.newThread).Nodup ∧ ∀ id ∈ es.filterMap Event.newThread,
    Arena.Given t.threads t.threadGenerations (·.id.raw) id.raw

theorem givenOut_step (es : List Event) (t : ProcessTable) (call : Call) (h : GivenOut es t)
    (hlasting : Lasting t call) : GivenOut (es ++ [event t call]) (step t call) := by
  have hc := step_change h.inv.named h.inv.singleThreaded call
  have he : event t call ≠ .torn := fun he => hlasting (event_torn.mp he)
  refine ⟨inv_change h.inv hc, ?_, ?_⟩
  · rw [filterMap_snoc]
    exact nodup_extend h.processes.1 h.processes.2
      (fun _ hgiven => given_evolves (evolves_processes hc he) hgiven)
      (fun _ hid => newProcess_change hc hid)
  · rw [filterMap_snoc]
    exact nodup_extend h.threads.1 h.threads.2
      (fun _ hgiven => given_evolves (evolves_threads hc he) hgiven)
      (fun _ hid => newThread_change hc hid)

theorem givenOut_run (calls : List Call) (hlasting : Obeys step Lasting ProcessTable.new calls) :
    GivenOut (trace step event ProcessTable.new calls) (run step ProcessTable.new calls) := by
  refine run_history step Lasting event GivenOut givenOut_step calls [] ProcessTable.new ?_ hlasting
  exact ⟨inv_new, ⟨List.nodup_nil, fun _ hid => by cases hid⟩,
    ⟨List.nodup_nil, fun _ hid => by cases hid⟩⟩

/-! ### What was removed stays removed -/

/-- The slots of a removed process and its thread have moved on. -/
structure Gone (process : ProcessId) (thread : ThreadId) (t : ProcessTable) : Prop where
  inv : Inv t
  process : Arena.Retired t.processGenerations process.raw
  thread : Arena.Retired t.threadGenerations thread.raw

variable {process : ProcessId} {thread : ThreadId}

theorem gone_step (t : ProcessTable) (call : Call) (h : Gone process thread t)
    (hlasting : Lasting t call) : Gone process thread (step t call) := by
  have hc := step_change h.inv.named h.inv.singleThreaded call
  have he : event t call ≠ .torn := fun he => hlasting (event_torn.mp he)
  exact ⟨inv_change h.inv hc, retired_evolves (evolves_processes hc he) h.process,
    retired_evolves (evolves_threads hc he) h.thread⟩

variable {t t' : ProcessTable} {parent child : ProcessId} {status : Int32} {record : ProcessRecord}

/-- Waiting removes the child and the one thread it lists. -/
theorem gone_reaped (h : Inv t) (hc : Change t (.reaped parent child status) t')
    (hrecord : t.process child = .ok record) (hthread : thread ∈ record.threads.entries) :
    Gone child thread t' := by
  have h' := inv_change h hc
  cases hc with
  | reaped hreapable hsuccThread hsucc =>
    rcases locateProcess_get hreapable.located with ⟨-, hget, hid⟩
    rcases process_ok.mp hrecord with ⟨slot, hlocate⟩
    rw [hreapable.located, Option.some.injEq, Prod.mk.injEq] at hlocate
    rw [← hlocate.2, hreapable.lists, List.mem_singleton] at hthread
    refine ⟨h', ?_, ?_⟩
    · rw [← hid]
      exact retired_clear (by simp [maxProcesses]) h.named hget hsucc
    · rw [hthread]
      exact retired_clear (by simp [maxThreads]) h.threadsNamed hreapable.thread hsuccThread

theorem reaped_child (h : Inv t) (hc : Change t (.reaped parent child status) t') :
    ∃ record, t.process child = .ok record ∧ child ≠ ProcessId.init := by
  cases hc with
  | reaped hreapable _ _ =>
    exact ⟨_, process_ok.mpr ⟨_, hreapable.located⟩, hreapable.not_init h⟩

theorem Gone.locateProcess (h : Gone process thread t) : t.locateProcess process = none :=
  locate_retired h.process

theorem Gone.locateThread (h : Gone process thread t) : t.locateThread thread = none :=
  locate_retired h.thread

/-! ### Requests about what was removed -/

/-- The processes a question names. -/
def Query.processes : Query → List ProcessId
  | fdInfo process _ | fdAccess process _ | signalPending process _ | credentials process
  | processState process | authorize process _ => [process]
  | _ => []

/-- The threads a question names. -/
def Query.threads : Query → List ThreadId
  | threadState thread | threadKind thread | threadOwner thread | threadAccounting thread =>
    [thread]
  | _ => []

/-- The processes a request names. -/
def Call.processes : Call → List ProcessId
  | spawnChild process _ | exit process _ | openFd process _ _ _ | closeFd process _
  | setCloseOnExec process _ _ | closeOnExec process | raiseSignal process _
  | raiseEvent process _ => [process]
  | wait parent child => parent :: child.toList
  | query question => question.processes
  | _ => []

/-- The threads a request names. -/
def Call.threads : Call → List ThreadId
  | accountThread thread _ | blockThread thread _ | wakeThread thread | preemptThread thread =>
    [thread]
  | switchTo from_ to_ => from_.toList ++ [to_]
  | query question => question.threads
  | _ => []

/-- The request passes the checks that are made before the identities it names
    are looked up: a descriptor is in range, a bit number is below 64, and a
    switch is between two threads the first of which is running. -/
def Admissible (t : ProcessTable) : Call → Prop
  | .closeFd _ fd | .setCloseOnExec _ fd _ | .query (.fdInfo _ fd) | .query (.fdAccess _ fd) =>
    fd.slot ≠ none
  | .raiseSignal _ bit | .raiseEvent _ bit | .query (.signalPending _ bit) => bit < 64
  | .switchTo from_ to_ => from_ ≠ some to_ ∧ ∀ current record, from_ = some current →
      t.thread current = .ok record → record.state = .running
  | _ => True

variable {call : Call}

section Rejected

variable {t : ProcessTable}

theorem fdEntry_rejects (hnone : t.locateProcess id = none) (fd : FileDescriptor) :
    ∃ e, fdEntry t id fd = .error e ∧ (fd.slot ≠ none → e = .invalidId) := by
  unfold fdEntry
  cases hslot : fd.slot with
  | none => exact ⟨_, rfl, fun hc => absurd rfl hc⟩
  | some slot =>
    rw [process_error.mpr ⟨hnone, rfl⟩]
    exact ⟨_, rfl, fun _ => rfl⟩

variable {question : Query}

theorem query_rejects_process (hnone : t.locateProcess id = none) (hid : id ∈ question.processes) :
    ∃ e, question.ask t = .error e ∧ (Admissible t (.query question) → e = .invalidId) := by
  have herror : t.process id = .error .invalidId := process_error.mpr ⟨hnone, rfl⟩
  cases question with
  | fdInfo process fd | fdAccess process fd =>
    cases List.mem_singleton.mp hid
    rcases fdEntry_rejects hnone fd with ⟨e, he, hslot⟩
    refine ⟨e, ?_, hslot⟩
    simp only [Query.ask, he]
    rfl
  | signalPending process bit =>
    cases List.mem_singleton.mp hid
    simp only [Query.ask, herror]
    by_cases hbit : bit ≥ 64
    · refine ⟨_, if_pos hbit, fun hc => absurd hc ?_⟩
      simpa [Admissible] using hbit
    · exact ⟨_, if_neg hbit, fun _ => rfl⟩
  | credentials process | processState process | authorize process capability =>
    cases List.mem_singleton.mp hid
    simp only [Query.ask, herror]
    exact ⟨_, rfl, fun _ => rfl⟩
  | threadState thread | threadKind thread | threadOwner thread | threadAccounting thread =>
    cases hid

theorem query_rejects_thread {id : ThreadId} (hnone : t.locateThread id = none)
    (hid : id ∈ question.threads) : question.ask t = .error .invalidId := by
  have herror : t.thread id = .error .invalidId := thread_error.mpr ⟨hnone, rfl⟩
  cases question with
  | fdInfo process fd | fdAccess process fd | signalPending process bit | credentials process
  | processState process | authorize process capability => cases hid
  | threadState thread | threadKind thread | threadOwner thread | threadAccounting thread =>
    cases List.mem_singleton.mp hid
    simp only [Query.ask, herror]
    rfl

/-- A request about a process that is not there fails. -/
theorem rejects_process (hnone : t.locateProcess id = none) (hinit : id ≠ ProcessId.init)
    (hid : id ∈ call.processes) :
    wp call.perform (fun _ _ => False) (fun e _ => Admissible t call → e = .invalidId) t := by
  cases call with
  | createInit | spawnKernelThread | accountThread thread ticks | blockThread thread sleeping
  | wakeThread thread | preemptThread thread | switchTo from_ to_ => cases hid
  | spawnChild | openFd | closeOnExec =>
    cases List.mem_singleton.mp hid
    simp [Call.perform, spawnChild, openFd, closeOnExec, hnone]
  | exit process status =>
    cases List.mem_singleton.mp hid
    simp [Call.perform, exit, hnone, hinit]
  | wait parent child =>
    simp only [Call.perform, wait, wp_bind, wp_process]
    refine ⟨fun slot record hparent => ?_, fun _ => by simp⟩
    rcases List.mem_cons.mp hid with rfl | hchild
    · rw [hnone] at hparent
      cases hparent
    · rw [Option.mem_toList] at hchild
      have hwait : waitCandidate parent child t = .error .invalidId := by
        rw [hchild]
        unfold waitCandidate
        simp only [process_error.mpr ⟨hnone, rfl⟩]
        rfl
      rw [wp_lift, hwait]
      simp
  | closeFd process fd | setCloseOnExec process fd enabled =>
    cases List.mem_singleton.mp hid
    rcases fdEntry_rejects hnone fd with ⟨e, he, hslot⟩
    simpa [Call.perform, closeFd, setCloseOnExec, wp_lift, he, Admissible] using hslot
  | raiseSignal | raiseEvent =>
    cases List.mem_singleton.mp hid
    simp [Call.perform, raiseSignal, raiseEvent, hnone, Admissible]
  | query question =>
    rcases query_rejects_process hnone hid with ⟨e, he, hwhen⟩
    simpa [Call.perform, wp_lift, he] using hwhen

theorem switchTo_rejects {id : ThreadId} (hnone : t.locateThread id = none)
    {from_ : Option ThreadId} {to_ : ThreadId} (hid : from_ = some id ∨ to_ = id) :
    wp (switchTo from_ to_) (fun _ _ => False)
      (fun e _ => Admissible t (.switchTo from_ to_) → e = .invalidId) t := by
  cases from_ with
  | none =>
    have hto : to_ = id := hid.resolve_left (by simp)
    simp only [switchTo, wp_bind, wp_thread, wp_ite, hto, hnone]
    simp
  | some current =>
    simp only [switchTo, wp_bind, wp_thread, wp_ite, wp_fail, implies_true, and_true]
    refine ⟨fun heq hadm => absurd heq hadm.1, fun _ slot record hcurrent =>
      ⟨fun hnot hadm => ?_, fun _ slot' record' hto => ?_⟩⟩
    · exact absurd (hadm.2 current record rfl (thread_ok.mpr ⟨slot, hcurrent⟩)) hnot
    · -- Both were found, but one of them is not there.
      rcases hid with hfrom | rfl
      · rw [Option.some.inj hfrom, hnone] at hcurrent
        cases hcurrent
      · rw [hnone] at hto
        cases hto

/-- A request about a thread that is not there fails. -/
theorem rejects_thread {id : ThreadId} (hnone : t.locateThread id = none)
    (hid : id ∈ call.threads) :
    wp call.perform (fun _ _ => False) (fun e _ => Admissible t call → e = .invalidId) t := by
  cases call with
  | createInit | spawnKernelThread | spawnChild parent credentials | exit process status
  | wait parent child | openFd process openFile readable writable | closeFd process fd
  | setCloseOnExec process fd enabled | closeOnExec process | raiseSignal process bit
  | raiseEvent process bit => cases hid
  | accountThread | blockThread | wakeThread | preemptThread =>
    cases List.mem_singleton.mp hid
    simp [Call.perform, accountThread, blockThread, wakeThread, preemptThread, hnone]
  | switchTo from_ to_ =>
    rw [Call.perform, wp_bind]
    refine wp_post (switchTo_rejects hnone ?_) (fun _ _ h => h.elim)
    rcases List.mem_append.mp hid with hfrom | hto
    · exact .inl (Option.mem_toList.mp hfrom)
    · exact .inr (List.mem_singleton.mp hto).symm
  | query question =>
    simp [Call.perform, wp_lift, query_rejects_thread hnone hid]

end Rejected

/-- The process and the thread are found no more, and no request that names
    either succeeds. -/
structure Rejected (process : ProcessId) (thread : ThreadId) (t : ProcessTable) : Prop where
  noProcess : t.process process = .error .invalidId
  noThread : t.thread thread = .error .invalidId
  requests : ∀ call : Call, process ∈ call.processes ∨ thread ∈ call.threads →
    ∃ e, outcome t call = .error e ∧ (Admissible t call → e = .invalidId)

theorem outcome_of_wp {E : Error → Prop}
    (h : wp call.perform (fun _ _ => False) (fun e _ => E e) t) :
    ∃ e, outcome t call = .error e ∧ E e := by
  unfold outcome
  rcases hperform : call.perform t with ⟨e | reply, t'⟩
  · exact ⟨e, rfl, wp_error hperform h⟩
  · exact (wp_ok hperform h).elim

theorem Gone.rejected (h : Gone process thread t) (hinit : process ≠ ProcessId.init) :
    Rejected process thread t where
  noProcess := process_error.mpr ⟨h.locateProcess, rfl⟩
  noThread := thread_error.mpr ⟨h.locateThread, rfl⟩
  requests := by
    rintro call (hprocess | hthread)
    · exact outcome_of_wp (rejects_process h.locateProcess hinit hprocess)
    · exact outcome_of_wp (rejects_thread h.locateThread hthread)

/-- The thread that waiting frees belongs to the child it removes. -/
theorem freed_thread_owner (h : Inv t) (hc : Change t (.reaped parent child status) t') {i : Nat}
    {record : ThreadRecord} (hget : t.threads.get i = some record)
    (hfreed : t'.threads.get i = none) : record.process = some child := by
  cases hc with
  | @reaped _ _ _ _ _ threadSlot threadRecord _ _ hreapable hthread hprocess =>
    have hi : i = threadSlot := by
      by_contra hne
      have hkept : (t.threads.set threadSlot none).get i = t.threads.get i :=
        get_set_other _ _ hne
      rw [hget] at hkept
      exact absurd (hkept.symm.trans hfreed) (by simp)
    rw [hi, hreapable.thread, Option.some.injEq] at hget
    rcases holds_of_locate hreapable.located with ⟨hr, hid⟩
    rw [← hget, ← hid]
    exact hreapable.owner_of_succ h hthread hr (hreapable.lists_thread h)

/-- Init alone. -/
def founded : ProcessTable := spawned ProcessTable.new 0 0 none Credentials.bootstrap

/-- Init alone, with the second slot of either kind at a generation. -/
def aged (generation : UInt16) : ProcessTable :=
  { founded with
    processGenerations := (Slots.replicate _ 0).set 1 generation,
    threadGenerations := (Slots.replicate _ 0).set 1 generation }

/-- A child is spawned, exits and is waited for. -/
def round (generation : UInt16) : List Call :=
  [.spawnChild ProcessId.init Credentials.bootstrap, .exit (ProcessId.new 1 generation) 0,
    .wait ProcessId.init none]

/-- Init is created, and so many children come and go. -/
def rounds : Nat → List Call
  | 0 => [.createInit]
  | n + 1 => rounds n ++ round (UInt16.ofNat n)

theorem perform_of_wp {α : Type} {x : TableM α} {a : α}
    (h : wp x (fun b u => b = a ∧ u = t') (fun _ _ => False) t) : x t = (.ok a, t') := by
  rcases hx : x t with ⟨e | b, u⟩
  · exact (wp_error hx h).elim
  · rcases wp_ok hx h with ⟨rfl, rfl⟩
    rfl

theorem createInit_new : Call.createInit.perform ProcessTable.new
    = (.ok (.created (ProcessId.new 0 0) (ThreadId.new 0 0)), founded) := by
  apply perform_of_wp
  simp only [Call.perform, createInit, wp_bind, wp_read, wp_ite, wp_fail, wp_pure]
  refine ⟨fun hc => absurd hc Bool.false_ne_true, fun _ => ?_⟩
  refine wp_mono (install_spec none Credentials.bootstrap (by simp [maxProcesses]) rfl) ?_ ?_
  · rintro _ _ ⟨threadSlot, hposition, rfl, rfl⟩
    cases hposition
    exact ⟨rfl, rfl⟩
  · rintro _ _ ⟨-, -, hfull⟩
    cases hfull

section Round

variable {t : ProcessTable} {parentSlot : Nat}

theorem spawnChild_eq {credentials : Credentials} {slot threadSlot : Nat}
    (hparent : t.locateProcess parent = some (parentSlot, record))
    (hrunning : record.state = .running) (hslot : t.processes.position Option.isNone = some slot)
    (hthread : t.threads.position Option.isNone = some threadSlot) :
    (Call.spawnChild parent credentials).perform t
      = (.ok (.created (ProcessId.new slot (t.processGenerations.get slot))
          (ThreadId.new threadSlot (t.threadGenerations.get threadSlot))),
        spawned t slot threadSlot (some parent) credentials) := by
  apply perform_of_wp
  rcases position_isNone hslot with ⟨hlt, hfree⟩
  simp only [Call.perform, spawnChild, wp_bind, wp_process, wp_ite, wp_fail, wp_lookup, wp_pure,
    hparent, hslot, Option.some.injEq, Prod.mk.injEq, and_imp, reduceCtorEq, false_implies,
    and_true]
  rintro _ _ rfl rfl
  refine ⟨fun hc => absurd hrunning hc, ?_⟩
  rintro - _ rfl
  refine wp_mono (install_spec (some parent) credentials hlt hfree) ?_ ?_
  · rintro _ t' ⟨threadSlot', hposition, rfl, rfl⟩
    rw [hthread, Option.some.injEq] at hposition
    rw [hposition]
    exact ⟨rfl, rfl⟩
  · rintro _ _ ⟨-, -, hfull⟩
    rw [hthread] at hfull
    cases hfull

theorem exit_eq {slot : Nat} (hinit : process ≠ ProcessId.init)
    (hlocate : t.locateProcess process = some (slot, record)) (hrunning : record.state = .running) :
    (Call.exit process status).perform t = (.ok .done, exited t process slot record status) := by
  apply perform_of_wp
  rw [Call.perform, wp_bind]
  refine wp_post (exit_running status hinit hlocate hrunning) ?_
  rintro _ _ rfl
  exact ⟨rfl, rfl⟩

theorem wait_eq {parentRecord : ProcessRecord} {slot : Nat} {threadSlot : Nat}
    {threadRecord : ThreadRecord} {generation threadGeneration : UInt16}
    (hparent : t.locateProcess parent = some (parentSlot, parentRecord))
    (hcandidate : waitCandidate parent none t = .ok child)
    (hreapable : Reapable t parent child status slot record threadSlot threadRecord)
    (hthread : Arena.checkedSucc (t.threadGenerations.get threadSlot) = some threadGeneration)
    (hprocess : Arena.checkedSucc (t.processGenerations.get slot) = some generation) :
    (Call.wait parent none).perform t
      = (.ok (.waited child status), reaped t slot threadSlot generation threadGeneration) := by
  apply perform_of_wp
  simp only [Call.perform, wait, wp_bind, wp_process, hparent, Option.some.injEq, Prod.mk.injEq,
    and_imp, reduceCtorEq, false_implies, and_true]
  rintro _ _ rfl rfl
  rw [wp_lift, hcandidate]
  simp only [Except.ok.injEq, reduceCtorEq, false_implies, implies_true, and_true, forall_eq',
    hreapable.located, Option.some.injEq, Prod.mk.injEq, and_imp]
  rintro _ _ rfl rfl
  simp only [wp_lookup, hreapable.exitStatus, Option.some.injEq, forall_eq', reduceCtorEq,
    false_implies, and_true]
  refine wp_mono (reap_spec hreapable.located hreapable.zombie hreapable.lists) ?_ ?_
  · rintro _ _ ⟨threadSlot', threadRecord', generation', threadGeneration', hts, -, -, hthread',
      hprocess', rfl⟩
    rw [hreapable.threadNumber, Option.some.injEq] at hts
    rw [← hts, hthread, Option.some.injEq] at hthread'
    rw [hprocess, Option.some.injEq] at hprocess'
    rw [← hts, ← hthread', ← hprocess']
    exact ⟨rfl, rfl⟩
  · rintro e _ (⟨-, -, hmissing⟩ | ⟨-, threadSlot', threadRecord', hts, -, -, hwhy⟩)
    · exact hmissing threadSlot hreapable.threadNumber threadRecord hreapable.thread rfl
    · rw [hreapable.threadNumber, Option.some.injEq] at hts
      rcases hwhy with ⟨hlast, -⟩ | ⟨_, -, hlast, -⟩
      · rw [← hts, hthread] at hlast
        cases hlast
      · rw [hprocess] at hlast
        cases hlast

end Round

/-- Init. -/
def rootRecord : ProcessRecord :=
  firstRecord (ProcessId.new 0 0) none Credentials.bootstrap (ThreadId.new 0 0)

def rootThread : ThreadRecord :=
  firstThread (ThreadId.new 0 0) (some (ProcessId.new 0 0)) .user

section Ageing

variable (generation : UInt16)

/-- The child of a round. -/
def childOf : ProcessRecord :=
  firstRecord (ProcessId.new 1 generation) (some ProcessId.init) Credentials.bootstrap
    (ThreadId.new 1 generation)

def threadOf : ThreadRecord :=
  firstThread (ThreadId.new 1 generation) (some (ProcessId.new 1 generation)) .user

/-- The table after the child has exited. -/
def bereaved : ProcessTable :=
  { aged generation with
    processes := ((Slots.replicate _ none).set 0 (some rootRecord)).set 1 (some
      { childOf generation with
        state := .zombie, exitStatus := some 0, fds := Slots.replicate _ none }),
    threads := ((Slots.replicate _ none).set 0 (some rootThread)).set 1 (some
      { threadOf generation with state := .exited }) }

theorem new_one_ne_init : ProcessId.new 1 generation ≠ ProcessId.init := by
  intro hc
  have hslot := processId_new_slot generation (show 1 < maxProcesses by simp [maxProcesses])
  rw [hc] at hslot
  cases hslot

theorem spawn_aged :
    (Call.spawnChild ProcessId.init Credentials.bootstrap).perform (aged generation)
      = (.ok (.created (ProcessId.new 1 generation) (ThreadId.new 1 generation)),
        spawned (aged generation) 1 1 (some ProcessId.init) Credentials.bootstrap) :=
  spawnChild_eq rfl rfl rfl rfl

theorem map_replicate_none {n : Nat} {ρ : Type} (f : ρ → ρ) :
    (Slots.replicate n (none : Option ρ)).map (Option.map f) = Slots.replicate n none := rfl

theorem exit_aged :
    (Call.exit (ProcessId.new 1 generation) 0).perform
        (spawned (aged generation) 1 1 (some ProcessId.init) Credentials.bootstrap)
      = (.ok .done, bereaved generation) := by
  have hne := new_one_ne_init generation
  have hlocate : (spawned (aged generation) 1 1 (some ProcessId.init)
      Credentials.bootstrap).locateProcess (ProcessId.new 1 generation)
      = some (1, childOf generation) := locateProcess_setProcess (by simp [maxProcesses]) rfl
  rw [exit_eq hne hlocate rfl]
  refine Prod.ext rfl (ProcessTable.ext ?_ rfl ?_ rfl)
  · -- Neither init nor the child itself is a child of the child.
    have hbury : bury (ProcessId.new 1 generation) 0 (childOf generation)
        = { childOf generation with
            state := .zombie, exitStatus := some 0, fds := Slots.replicate _ none } := by
      have hadopt : adopt (ProcessId.new 1 generation) (childOf generation)
          = childOf generation := if_neg fun hc => hne (Option.some.inj hc).symm
      unfold bury
      rw [hadopt]
    change (Slots.map (Option.map (adopt (ProcessId.new 1 generation)))
      (((Slots.replicate _ none).set 0 (some rootRecord)).set 1 (some (childOf generation)))).set 1
        (some (bury (ProcessId.new 1 generation) 0 (childOf generation))) = _
    rw [map_set, set_set, map_set, hbury]
    rfl
  · have hroot : stop (ProcessId.new 1 generation) rootThread = rootThread :=
      if_neg fun hc => hne (Option.some.inj hc).symm
    have hstop : stop (ProcessId.new 1 generation) (threadOf generation)
        = { threadOf generation with state := .exited } := if_pos rfl
    change Slots.map (Option.map (stop (ProcessId.new 1 generation)))
      (((Slots.replicate _ none).set 0 (some rootThread)).set 1 (some (threadOf generation))) = _
    rw [map_set, map_set, map_replicate_none, Option.map_some, Option.map_some, hroot,
      hstop]
    rfl

theorem bereaved_reapable :
    Reapable (bereaved generation) ProcessId.init (ProcessId.new 1 generation) 0 1
      { childOf generation with
        state := .zombie, exitStatus := some 0, fds := Slots.replicate _ none } 1
      { threadOf generation with state := .exited } where
  located := by
    refine locate_eq_some.mpr ⟨?_, ?_, rfl, rfl⟩
    · exact processId_new_slot generation (by simp [maxProcesses])
    · exact (generationOf_name generation (by simp)).symm
  ofParent := rfl
  zombie := rfl
  exitStatus := rfl
  lists := rfl
  threadNumber := threadId_new_slot generation (by simp [maxThreads])
  thread := rfl

variable {generation}

/-- A round adds one to the generation. -/
theorem run_round {next : UInt16} (h : Arena.checkedSucc generation = some next) :
    run step (aged generation) (round generation) = aged next := by
  have hspawn : step (aged generation) (.spawnChild ProcessId.init Credentials.bootstrap)
      = spawned (aged generation) 1 1 (some ProcessId.init) Credentials.bootstrap :=
    congrArg Prod.snd (spawn_aged generation)
  have hexit : step (spawned (aged generation) 1 1 (some ProcessId.init) Credentials.bootstrap)
      (.exit (ProcessId.new 1 generation) 0) = bereaved generation :=
    congrArg Prod.snd (exit_aged generation)
  have hwait : step (bereaved generation) (.wait ProcessId.init none)
      = reaped (bereaved generation) 1 1 next next :=
    congrArg Prod.snd (wait_eq rfl rfl (bereaved_reapable generation) h h)
  change step (step (step (aged generation) (.spawnChild _ _)) (.exit _ _)) (.wait _ _) = _
  rw [hspawn, hexit, hwait]
  refine ProcessTable.ext ?_ ?_ ?_ ?_
  · change (((Slots.replicate _ none).set 0 (some rootRecord)).set 1 _).set 1 none
      = (Slots.replicate _ none).set 0 (some rootRecord)
    rw [set_set]
    exact set_get ((Slots.replicate _ none).set 0 (some rootRecord)) 1
  · exact set_set _ 1 _ _
  · change (((Slots.replicate _ none).set 0 (some rootThread)).set 1 _).set 1 none
      = (Slots.replicate _ none).set 0 (some rootThread)
    rw [set_set]
    exact set_get ((Slots.replicate _ none).set 0 (some rootThread)) 1
  · exact set_set _ 1 _ _

end Ageing

theorem run_rounds (n : Nat) (hn : n ≤ 65535) :
    run step ProcessTable.new (rounds n) = aged (UInt16.ofNat n) := by
  induction n with
  | zero =>
    have hfounded : step ProcessTable.new .createInit = founded :=
      congrArg Prod.snd createInit_new
    change step ProcessTable.new .createInit = aged 0
    rw [hfounded]
    refine ProcessTable.ext rfl ?_ rfl ?_
    · exact (set_get (Slots.replicate maxProcesses (0 : UInt16)) 1).symm
    · exact (set_get (Slots.replicate maxThreads (0 : UInt16)) 1).symm
  | succ n ih =>
    rw [rounds, run_append, ih (by omega)]
    refine run_round (checkedSucc_eq_some.mpr ?_)
    rw [UInt16.toNat_ofNat', UInt16.toNat_ofNat']
    omega

/-- At the last generation a child is spawned and exits. -/
def lastChild : List Call :=
  [.spawnChild ProcessId.init Credentials.bootstrap, .exit (ProcessId.new 1 65535) 0]

/-- When a generation runs out, the slot of a thread has been emptied all the
    same. -/
theorem torn_frees_thread (hc : Change t .torn t') :
    ∃ slot record, t.threads.get slot = some record ∧ t'.threads.get slot = none := by
  cases hc with
  | tornThread hreapable hthread | tornProcess hreapable hthread hprocess =>
    exact ⟨_, _, hreapable.thread,
      get_set_self _ _ (lt_of_get_some hreapable.thread)⟩

end Process

end Norx
