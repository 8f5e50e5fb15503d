import Norx.Framework.Effects
import Norx.Process.Effects
import Norx.Service.Supervisor

/-!
# What the Calls of the Supervisor Do

A record is copied out, changed and written back, and nothing but the call that
copied it writes in between. So a call changes at most one record, and it touches
the device only if it is the one the record is for. `Change` lists what a call can
do to the table and the device together, `step_change` is that it does one of these,
and the results about whole runs follow from that.

## Main definitions

* `Event`, `event`: What a call turned out to be.

## Theorems

* `quiesce_halts`, `stop_halts`: The calls that end a service, in full.
-/

namespace Norx

namespace Service

open Fallible Framework

/-! ### The checks -/

/-- The thread is a user thread that can run, of a running process other than
    init. -/
structure Live (processes : Process.ProcessTable) (process : Process.ProcessId)
    (thread : Process.ThreadId) : Prop where
  notInit : process ≠ Process.ProcessId.init
  running : ∃ record, processes.process process = .ok record ∧ record.state = .running
  thread : ∃ record, processes.thread thread = .ok record ∧ record.process = some process ∧
    record.kind = .user ∧ (record.state = .ready ∨ record.state = .running)

theorem mapError_ok {ε δ α : Type} {f : ε → δ} {x : Except ε α} {a : α}
    (h : x.mapError f = .ok a) : x = .ok a := by
  cases x with
  | error e => exact nomatch h
  | ok b =>
    injection h with h
    rw [h]

variable {processes : Process.ProcessTable} {process : Process.ProcessId}

theorem processState_ok {state : Process.ProcessState}
    (h : processState processes process = .ok state) :
    ∃ record, processes.process process = .ok record ∧ record.state = state := by
  unfold processState at h
  cases hrecord : processes.process process with
  | error e =>
    rw [hrecord] at h
    exact nomatch h
  | ok record =>
    rw [hrecord] at h
    injection h with h
    exact ⟨record, rfl, h⟩

theorem validateProcess_ok {thread : Process.ThreadId}
    (h : validateProcess processes process thread = .ok ()) : Live processes process thread := by
  rcases except_guard_ok h with ⟨hinit, h⟩
  rcases except_bind_ok h with ⟨state, hstate, h⟩
  rcases except_guard_ok h with ⟨hrunning, h⟩
  rcases except_bind_ok h with ⟨record, hrecord, h⟩
  rcases except_guard_ok h with ⟨howner, h⟩
  rcases except_guard_ok h with ⟨hkind, h⟩
  have hready : record.state = .ready ∨ record.state = .running := by
    by_contra hnot
    rw [if_pos hnot] at h
    exact nomatch h
  rcases processState_ok (mapError_ok hstate) with ⟨owner, hfound, hs⟩
  exact ⟨hinit, ⟨owner, hfound, hs.trans (not_not.mp hrunning)⟩,
    ⟨record, mapError_ok hrecord, not_not.mp howner, not_not.mp hkind, hready⟩⟩

variable {record : ServiceRecord}

theorem validateDeviceId_ok {device : Device} {driver : Driver} :
    validateDeviceId record device driver = .ok () ↔
      record.device = device.id ∧ record.driver.id = driver.id := by
  unfold validateDeviceId
  by_cases h : record.device ≠ device.id ∨ record.driver.id ≠ driver.id
  · rw [if_pos h]
    refine ⟨nofun, fun hboth => ?_⟩
    rcases h with h | h
    · exact absurd hboth.1 h
    · exact absurd hboth.2 h
  · rw [if_neg h]
    simp at h
    exact ⟨fun _ => h, fun _ => rfl⟩

theorem validateDevice_ok {device : Device} {driver : Driver} :
    validateDevice record device driver = .ok () ↔
      record.device = device.id ∧ record.driver.id = driver.id ∧
        device.driver = some driver.id := by
  unfold validateDevice
  constructor
  · intro h
    rcases except_bind_ok h with ⟨_, hid, h⟩
    rcases validateDeviceId_ok.mp hid with ⟨hdevice, hdriver⟩
    refine ⟨hdevice, hdriver, ?_⟩
    by_contra hnot
    rw [if_pos hnot] at h
    exact nomatch h
  · rintro ⟨hdevice, hdriver, hbound⟩
    rw [validateDeviceId_ok.mpr ⟨hdevice, hdriver⟩, if_neg (not_not.mpr hbound)]
    rfl

variable {handle : ServiceHandle} {slot : Nat}

namespace Supervisor

variable {record : ServiceRecord}

theorem record_ok {s : Supervisor} :
    s.record handle = .ok (slot, record) ↔
      slot = handle.slot.toNat ∧ slot < maxServices ∧ s.generations.get slot = handle.generation ∧
        s.records.get slot = some record := by
  unfold Supervisor.record
  by_cases hrange : maxServices ≤ handle.slot.toNat ∨
      s.generations.get handle.slot.toNat ≠ handle.generation
  · rw [if_pos hrange]
    refine ⟨nofun, ?_⟩
    rintro ⟨rfl, hlt, hgeneration, -⟩
    rcases hrange with hrange | hrange
    · omega
    · exact absurd hgeneration hrange
  · rw [if_neg hrange]
    simp at hrange
    cases hget : s.records.get handle.slot.toNat with
    | none =>
      refine ⟨nofun, ?_⟩
      rintro ⟨rfl, -, -, hsome⟩
      rw [hget] at hsome
      exact nomatch hsome
    | some found =>
      simp
      constructor
      · rintro ⟨rfl, rfl⟩
        exact ⟨rfl, hrange.1, hrange.2, hget⟩
      · rintro ⟨rfl, -, -, hsome⟩
        rw [hget] at hsome
        exact ⟨rfl, Option.some.inj hsome⟩

theorem record_put {s : Supervisor}
    (h : s.record handle = .ok (slot, record)) (new : ServiceRecord) :
    (s.put slot (some new)).record handle = .ok (slot, new) := by
  rcases record_ok.mp h with ⟨hslot, hlt, hgeneration, -⟩
  exact record_ok.mpr ⟨hslot, hlt, hgeneration, Slots.get_set_self _ _ hlt⟩

theorem put_put (s : Supervisor) (slot : Nat) (record new : Option ServiceRecord) :
    (s.put slot record).put slot new = s.put slot new := by
  rw [put, put, Slots.set_set]
  rfl

end Supervisor

/-! ### What a call does -/

/-- What a call turned out to be. The two that look for a thread carry what they
    were given. -/
inductive Event where
  | registered (slot : Nat) (processes : Process.ProcessTable) (process : Process.ProcessId)
      (thread : Process.ThreadId)
  | started (slot : Nat)
  | restarted (slot : Nat) (processes : Process.ProcessTable) (process : Process.ProcessId)
      (thread : Process.ThreadId)
  | other

def eventOf (processes : Process.ProcessTable) : Call → Except Error Reply → Event
  | .register process thread, .ok (.handle handle) =>
    .registered handle.slot.toNat processes process thread
  | .start handle, .ok _ => .started handle.slot.toNat
  | .restart handle process thread, .ok _ =>
    .restarted handle.slot.toNat processes process thread
  | _, _ => .other

def event (s : Supervisor) (request : Request) : Event :=
  eventOf request.processes request.call (request.outcome s).1

/-- The record of a service that is no longer to be reached. -/
def ServiceRecord.halted (record : ServiceRecord) (state : ServiceState) : ServiceRecord :=
  { record with state, endpointActive := false }

/-- The driver has quiesced the device of a record. -/
structure Quiesced (driver : Driver) (record : ServiceRecord) (d d' : Device) : Prop where
  own : record.driver.id = driver.id
  bound : d.driver = some driver.id
  quiesced : Framework.quiesce driver d = (.ok (), d')

/-- What a call can do to the table and to the device, and what it then was. -/
inductive Change (driver : Driver) (s s' : Scene) : Event → Prop
  | same (hs : s'.supervisor = s.supervisor) (hd : s'.device = s.device) : Change driver s s' .other
  | registered {slot : Nat} (record : ServiceRecord) (hlt : slot < maxServices)
      (hfree : s.supervisor.records.get slot = none)
      (hdevice : ∀ (i : Nat) r, s.supervisor.records.get i = some r → r.device ≠ record.device)
      (hstate : record.state = .registered) (hactive : record.endpointActive = false)
      (hrestarts : record.restarts = 0) (hlive : Live s.processes record.process record.thread)
      (hs : s'.supervisor = s.supervisor.put slot (some record)) (hd : s'.device = s.device) :
      Change driver s s' (.registered slot s.processes record.process record.thread)
  | started {slot : Nat} {record : ServiceRecord}
      (hget : s.supervisor.records.get slot = some record) (hstate : record.state = .registered)
      (hs : s'.supervisor = s.supervisor.put slot
        (some { record with state := .running, endpointActive := true }))
      (hd : s'.device = s.device) : Change driver s s' (.started slot)
  | halted {slot : Nat} {record : ServiceRecord} (state : ServiceState)
      (hget : s.supervisor.records.get slot = some record) (hown : record.device = s.device.id)
      (hwas : record.state ≠ .registered) (hstate : state ≠ .registered ∧ state ≠ .running)
      (hquiesced : state = .quiescing → Quiesced driver record s.device s'.device)
      (hs : s'.supervisor = s.supervisor.put slot (some (record.halted state))) :
      Change driver s s' .other
  | restarted {slot : Nat} {record : ServiceRecord} {process : Process.ProcessId}
      {thread : Process.ThreadId} (hget : s.supervisor.records.get slot = some record)
      (hown : record.device = s.device.id) (hwas : record.state = .stopped ∨ record.state = .failed)
      (hrestarts : record.restarts < maxRestarts) (hlive : Live s.processes process thread)
      (hs : s'.supervisor = s.supervisor.put slot (some { record with
        driver, process, thread, state := .registered, endpointActive := false,
        restarts := saturatingSucc record.restarts })) :
      Change driver s s' (.restarted slot s.processes process thread)
  | notRestarted {slot : Nat} {record : ServiceRecord}
      (hget : s.supervisor.records.get slot = some record) (hown : record.device = s.device.id)
      (hwas : record.state = .stopped ∨ record.state = .failed)
      (hs : s'.supervisor = s.supervisor) : Change driver s s' .other
  | removed (slot : Nat) (generations : Slots maxServices UInt16)
      (hgenerations : ∀ i : Nat, s.supervisor.generations.get i ≤ generations.get i)
      (hs : s'.supervisor = { s.supervisor.put slot none with generations })
      (hd : s'.device = s.device) : Change driver s s' .other

variable {s : Scene} {E : Error → Scene → Prop}

/-- A program over the device alone leaves the supervisor and the processes. -/
theorem wp_onDevice {α : Type} {x : DeviceM α} {Q : α → Scene → Prop}
    (hQ : ∀ a d, x s.device = (.ok a, d) → Q a { s with device := d })
    (hE : ∀ e d, x s.device = (.error e, d) → E (.driver e) { s with device := d }) :
    wp (onDevice x) Q E s := by
  rw [onDevice, wp_mapError, wp_within]
  unfold wp
  rcases hx : x s.device with ⟨e | a, d⟩
  · exact hE e d hx
  · exact hQ a d hx

/-- A program over the processes alone leaves the supervisor and the device. -/
theorem wp_onProcesses {α : Type} {x : Process.TableM α} {Q : α → Scene → Prop}
    (hQ : ∀ a t, x s.processes = (.ok a, t) → Q a { s with processes := t })
    (hE : ∀ e t, x s.processes = (.error e, t) → E (.process e) { s with processes := t }) :
    wp (onProcesses x) Q E s := by
  rw [onProcesses, wp_mapError, wp_within]
  unfold wp
  rcases hx : x s.processes with ⟨e | a, t⟩
  · exact hE e t hx
  · exact hQ a t hx

theorem register_change (driver : Driver) (process : Process.ProcessId)
    (thread : Process.ThreadId) (s : Scene) :
    wp (register driver process thread)
      (fun handle s' => Change driver s s'
        (.registered handle.slot.toNat s.processes process thread))
      (fun _ s' => Change driver s s' .other) s := by
  rw [register, wp_bind, wp_read, wp_ite]
  refine ⟨fun _ => .same rfl rfl, fun _ => ?_⟩
  rw [wp_bind, wp_lift]
  refine ⟨fun _ hlive => ?_, fun _ _ => .same rfl rfl⟩
  rw [wp_bind, wp_read, wp_ite]
  refine ⟨fun _ => .same rfl rfl, fun hfresh => ?_⟩
  rw [wp_bind, wp_lookup]
  refine ⟨fun slot hslot => ?_, fun _ => .same rfl rfl⟩
  rcases Slots.position_eq_some.mp hslot with ⟨hlt, hnone, -⟩
  rw [wp_bind, wp_read, wp_bind, save, wp_modify, wp_pure]
  have hslot : (UInt8.ofNat slot).toNat = slot :=
    UInt8.toNat_ofNat_of_lt' (hlt.trans (by decide))
  rw [hslot]
  refine .registered
    { device := s.device.id, driver, process, thread, state := .registered,
      endpointActive := false, restarts := 0 }
    hlt (Option.isNone_iff_eq_none.mp hnone) ?_ rfl rfl rfl (validateProcess_ok hlive) rfl rfl
  intro i r hr hsame
  refine hfresh (Slots.any_eq_true.mpr ?_)
  exact ⟨i, Arena.lt_of_get_some hr, by rw [hr]; exact decide_eq_true hsame⟩

theorem start_change (handle : ServiceHandle) (driver : Driver) (s : Scene) :
    wp (start handle driver)
      (fun _ s' => Change driver s s' (.started handle.slot.toNat))
      (fun _ s' => Change driver s s' .other) s := by
  rw [start, wp_bind, wp_lift]
  refine ⟨?_, fun _ _ => .same rfl rfl⟩
  rintro ⟨slot, record⟩ hrecord
  rcases Supervisor.record_ok.mp hrecord with ⟨rfl, -, -, hget⟩
  rw [wp_bind, wp_lift]
  refine ⟨fun _ _ => ?_, fun _ _ => .same rfl rfl⟩
  rw [wp_ite]
  refine ⟨fun _ => .same rfl rfl, fun hstate => ?_⟩
  rw [wp_bind, wp_lift]
  exact ⟨fun _ _ => .started hget (not_not.mp hstate) rfl rfl, fun _ _ => .same rfl rfl⟩

/-- `quiesce` of a service that is known: refused, or done with what the framework
    did to the device. -/
theorem quiesce_halts (handle : ServiceHandle) (driver : Driver)
    (h : s.supervisor.record handle = .ok (slot, record)) :
    wp (quiesce handle driver)
      (fun _ s' => record.state = .running ∧ record.device = s.device.id ∧
        Quiesced driver record s.device s'.device ∧ s'.processes = s.processes ∧
        s'.supervisor = s.supervisor.put slot (some (record.halted .quiescing)))
      (fun _ s' => s' = s ∧
          ¬ (record.state = .running ∧ validateDevice record s.device driver = .ok ()) ∨
        record.state = .running ∧ record.device = s.device.id ∧
        (∃ e, Framework.quiesce driver s.device = (.error e, s'.device)) ∧
        s'.supervisor = s.supervisor.put slot (some (record.halted .failed))) s := by
  rw [quiesce, wp_bind]
  refine wp_lift_ok h ?_
  rw [wp_bind, wp_lift]
  refine ⟨fun _ hdevice => ?_,
    fun _ herror => .inl ⟨rfl, fun hboth => (nomatch hboth.2.symm.trans herror)⟩⟩
  rcases validateDevice_ok.mp hdevice with ⟨hown, hdriver, hbound⟩
  rw [wp_ite]
  refine ⟨fun hnot => .inl ⟨rfl, fun hboth => hnot hboth.1⟩, fun hstate => ?_⟩
  rw [wp_bind, wp_attempt]
  apply wp_onDevice
  · exact fun _ _ hrun => ⟨not_not.mp hstate, hown, ⟨hdriver, hbound, hrun⟩, rfl, rfl⟩
  · exact fun e _ hrun => .inr ⟨not_not.mp hstate, hown, ⟨e, hrun⟩, rfl⟩

theorem detach_supervisor (driver : Driver) (s : Scene) :
    wp (detach driver) (fun _ s' => s'.supervisor = s.supervisor) (fun _ _ => False) s := by
  rw [detach, wp_bind, wp_attempt]
  apply wp_onDevice
  · exact fun _ _ _ => rfl
  · intro _ _ _
    rw [wp_bind, wp_attempt]
    exact wp_onDevice (fun _ _ _ => rfl) (fun _ _ _ => rfl)

theorem checkRemoved_spec (failure : Option Error) (s : Scene) :
    wp (checkRemoved failure) (fun _ s' => s' = s) (fun _ _ => False) s := by
  rw [checkRemoved, wp_bind, wp_read, wp_ite]
  exact ⟨fun _ => rfl, fun _ => rfl⟩

theorem endProcess_supervisor (process : Process.ProcessId) (failure : Option Error) (s : Scene) :
    wp (endProcess process failure)
      (fun _ s' => s'.supervisor = s.supervisor ∧ s'.device = s.device) (fun _ _ => False) s := by
  rw [endProcess, wp_bind, wp_read]
  rcases processState s.processes process with e | state
  · cases e with
    | _ => exact ⟨rfl, rfl⟩
  · cases state with
    | running =>
      rw [wp_bind, wp_attempt]
      exact wp_onProcesses (fun _ _ _ => ⟨rfl, rfl⟩) (fun _ _ _ => ⟨rfl, rfl⟩)
    | _ => exact ⟨rfl, rfl⟩

/-- `stop` of a service that is known: refused, or done with whatever the three
    parts did to the rest. -/
theorem stop_halts (handle : ServiceHandle) (driver : Driver)
    (h : s.supervisor.record handle = .ok (slot, record)) :
    wp (stop handle driver)
      (fun _ s' => record.state = .quiescing ∧ record.device = s.device.id ∧
        s'.supervisor = s.supervisor.put slot (some (record.halted .stopped)))
      (fun _ s' => s' = s ∨ record.state = .quiescing ∧ record.device = s.device.id ∧
        s'.supervisor = s.supervisor.put slot (some (record.halted .failed))) s := by
  rw [stop, wp_bind]
  refine wp_lift_ok h ?_
  rw [wp_bind, wp_lift]
  refine ⟨fun _ hdevice => ?_, fun _ _ => .inl rfl⟩
  have hown := (validateDevice_ok.mp hdevice).1
  rw [wp_ite]
  refine ⟨fun _ => .inl rfl, fun hstate => ?_⟩
  rw [wp_bind]
  apply wp_never (detach_supervisor driver s)
  intro failure s₁ hs₁
  rw [wp_bind]
  apply wp_never (checkRemoved_spec failure s₁)
  rintro failure s₁ rfl
  rw [wp_bind]
  apply wp_never (endProcess_supervisor record.process failure s₁)
  rintro failure s₂ ⟨hs₂, -⟩
  rw [wp_bind, save, wp_modify]
  cases failure with
  | none =>
    refine ⟨not_not.mp hstate, hown, ?_⟩
    rw [hs₂, hs₁]
    rfl
  | some error =>
    refine .inr ⟨not_not.mp hstate, hown, ?_⟩
    rw [hs₂, hs₁]
    rfl

/-- A program that starts by looking up a handle, from what it does with a record
    it finds. -/
theorem wp_found {β : Type} {x : ServiceM β} {f : Nat × ServiceRecord → ServiceM β}
    {Q : β → Scene → Prop} (hx : x = lift (fun s : Scene => s.supervisor.record handle) >>= f)
    (hE : ∀ e, E e s)
    (h : ∀ slot record, s.supervisor.record handle = .ok (slot, record) → wp x Q E s) :
    wp x Q E s := by
  cases hrecord : s.supervisor.record handle with
  | ok found => exact h found.1 found.2 hrecord
  | error e =>
    rw [hx, wp_bind, wp_lift, hrecord]
    exact ⟨fun _ hok => (nomatch hok), fun _ _ => hE _⟩

theorem quiesce_change (handle : ServiceHandle) (driver : Driver) (s : Scene) :
    wp (quiesce handle driver) (fun _ s' => Change driver s s' .other)
      (fun _ s' => Change driver s s' .other) s := by
  refine wp_found rfl (fun _ => .same rfl rfl) fun slot record h => ?_
  have hget := (Supervisor.record_ok.mp h).2.2.2
  apply wp_mono (quiesce_halts handle driver h)
  · rintro _ s' ⟨hstate, hown, hquiesced, -, hs'⟩
    exact .halted .quiescing hget hown (by rw [hstate]; exact nofun) ⟨nofun, nofun⟩
      (fun _ => hquiesced) hs'
  · rintro _ s' (⟨rfl, -⟩ | ⟨hstate, hown, -, hs'⟩)
    · exact .same rfl rfl
    · exact .halted .failed hget hown (by rw [hstate]; exact nofun) ⟨nofun, nofun⟩ nofun hs'

theorem stop_change (handle : ServiceHandle) (driver : Driver) (s : Scene) :
    wp (stop handle driver) (fun _ s' => Change driver s s' .other)
      (fun _ s' => Change driver s s' .other) s := by
  refine wp_found rfl (fun _ => .same rfl rfl) fun slot record h => ?_
  have hget := (Supervisor.record_ok.mp h).2.2.2
  apply wp_mono (stop_halts handle driver h)
  · rintro _ s' ⟨hstate, hown, hs'⟩
    exact .halted .stopped hget hown (by rw [hstate]; exact nofun) ⟨nofun, nofun⟩ nofun hs'
  · rintro _ s' (rfl | ⟨hstate, hown, hs'⟩)
    · exact .same rfl rfl
    · exact .halted .failed hget hown (by rw [hstate]; exact nofun) ⟨nofun, nofun⟩ nofun hs'

theorem restart_change (handle : ServiceHandle) (driver : Driver) (process : Process.ProcessId)
    (thread : Process.ThreadId) (s : Scene) :
    wp (restart handle driver process thread)
      (fun _ s' => Change driver s s' (.restarted handle.slot.toNat s.processes process thread))
      (fun _ s' => Change driver s s' .other) s := by
  rw [restart, wp_bind, wp_lift]
  refine ⟨?_, fun _ _ => .same rfl rfl⟩
  rintro ⟨slot, record⟩ hrecord
  rcases Supervisor.record_ok.mp hrecord with ⟨rfl, -, -, hget⟩
  rw [wp_bind, wp_lift]
  refine ⟨fun _ hdevice => ?_, fun _ _ => .same rfl rfl⟩
  have hown := (validateDeviceId_ok.mp hdevice).1
  rw [wp_ite]
  refine ⟨fun _ => .same rfl rfl, fun hstate => ?_⟩
  have hwas := not_not.mp hstate
  rw [wp_ite]
  refine ⟨fun _ => .same rfl rfl, fun hrestarts => ?_⟩
  rw [wp_bind, wp_lift]
  refine ⟨fun _ hlive => ?_, fun _ _ => .same rfl rfl⟩
  rw [wp_bind]
  refine wp_onDevice (fun _ d _ => ?_) (fun _ _ _ => .notRestarted hget hown hwas rfl)
  rw [wp_bind]
  refine wp_onDevice (fun _ d _ => ?_) (fun _ _ _ => .notRestarted hget hown hwas rfl)
  exact .restarted hget hown hwas (UInt8.not_le.mp hrestarts) (validateProcess_ok hlive) rfl

theorem recoverCrash_change (handle : ServiceHandle) (driver : Driver) (s : Scene) :
    wp (recoverCrash handle driver) (fun _ s' => Change driver s s' .other)
      (fun _ s' => Change driver s s' .other) s := by
  refine wp_found rfl (fun _ => .same rfl rfl) fun slot record h => ?_
  have hget := (Supervisor.record_ok.mp h).2.2.2
  rw [recoverCrash, wp_bind]
  refine wp_lift_ok h ?_
  rw [wp_bind, wp_lift]
  refine ⟨fun _ _ => ?_, fun _ _ => .same rfl rfl⟩
  rw [wp_ite]
  refine ⟨fun _ => .same rfl rfl, fun _ => ?_⟩
  rw [wp_bind, wp_lift]
  refine ⟨fun _ _ => ?_, fun _ _ => .same rfl rfl⟩
  rw [wp_ite]
  refine ⟨fun _ => .same rfl rfl, fun _ => ?_⟩
  rw [wp_bind]
  apply wp_mono (quiesce_halts handle driver h)
  · rintro _ s₁ ⟨hrunning, hown, hquiesced, -, hs₁⟩
    have hwas : record.state ≠ .registered := by
      rw [hrunning]
      exact nofun
    have h₁ : s₁.supervisor.record handle = .ok (slot, record.halted .quiescing) := by
      rw [hs₁]
      exact Supervisor.record_put h _
    rw [wp_bind]
    apply wp_mono (stop_halts handle driver h₁)
    · rintro _ s₂ ⟨-, -, hs₂⟩
      have h₂ : s₂.supervisor.record handle = .ok (slot, record.halted .stopped) := by
        rw [hs₂]
        exact Supervisor.record_put h₁ _
      rw [wp_bind]
      refine wp_lift_ok h₂ ?_
      refine .halted .failed hget hown hwas ⟨nofun, nofun⟩ nofun ?_
      change s₂.supervisor.put _ _ = _
      rw [hs₂, Supervisor.put_put, hs₁, Supervisor.put_put]
      rfl
    · -- A `stop` that is refused leaves the service quiescing.
      rintro _ s₂ (rfl | ⟨-, -, hs₂⟩)
      · exact .halted .quiescing hget hown hwas ⟨nofun, nofun⟩ (fun _ => hquiesced) hs₁
      · rw [hs₁, Supervisor.put_put] at hs₂
        exact .halted .failed hget hown hwas ⟨nofun, nofun⟩ nofun hs₂
  · rintro _ s₁ (⟨rfl, -⟩ | ⟨hrunning, hown, -, hs₁⟩)
    · exact .same rfl rfl
    · exact .halted .failed hget hown (by rw [hrunning]; exact nofun) ⟨nofun, nofun⟩ nofun hs₁

theorem unregister_change (handle : ServiceHandle) (driver : Driver) (s : Scene) :
    wp (unregister handle) (fun _ s' => Change driver s s' .other)
      (fun _ s' => Change driver s s' .other) s := by
  rw [unregister, wp_bind, wp_lift]
  refine ⟨?_, fun _ _ => .same rfl rfl⟩
  rintro ⟨slot, record⟩ hrecord
  rw [wp_ite]
  refine ⟨fun _ => .same rfl rfl, fun hstate => ?_⟩
  rw [wp_bind, wp_modify, wp_bind, wp_lookup]
  refine ⟨fun g hg => .removed slot _ (fun i => ?_) rfl rfl,
    fun _ => .removed slot _ (fun _ => UInt16.le_refl _) rfl rfl⟩
  change _ ≤ (s.supervisor.generations.set slot g).get i
  rcases Slots.get_set_cases s.supervisor.generations slot g i with ⟨rfl, hnew⟩ | hold
  · rw [hnew, UInt16.le_iff_toNat_le, Arena.checkedSucc_eq_some.mp hg]
    exact Nat.le_succ _
  · rw [hold]
    exact UInt16.le_refl _

/-- What a call is made in. -/
def Request.scene (request : Request) (s : Supervisor) : Scene :=
  { supervisor := s, device := request.device, processes := request.processes }

theorem step_change (s : Supervisor) (request : Request) :
    Change request.driver (request.scene s) (request.outcome s).2 (event s request) := by
  rcases request with ⟨call, device, driver, processes⟩
  have hwp : wp (call.perform driver)
      (fun reply s' => Change driver ⟨s, device, processes⟩ s'
        (eventOf processes call (.ok reply)))
      (fun e s' => Change driver ⟨s, device, processes⟩ s' (eventOf processes call (.error e)))
      ⟨s, device, processes⟩ := by
    cases call <;> rw [Call.perform, wp_bind]
    case register process thread => exact register_change driver process thread _
    case start handle => exact start_change handle driver _
    case quiesce handle => exact quiesce_change handle driver _
    case stop handle => exact stop_change handle driver _
    case restart handle process thread => exact restart_change handle driver process thread _
    case recoverCrash handle => exact recoverCrash_change handle driver _
    case unregister handle => exact unregister_change handle driver _
  unfold wp at hwp
  unfold event Request.outcome Request.scene
  rcases hrun : call.perform driver ⟨s, device, processes⟩ with ⟨_ | reply, s'⟩
  · rw [hrun] at hwp
    exact hwp
  · rw [hrun] at hwp
    exact hwp

end Service

end Norx
