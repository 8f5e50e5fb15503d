import Norx.Framework.Lifecycle
import Norx.Service.Invariant

/-!
# Taking the Device Back

What `stop` and `recover_crash` leave of a service. `stop` makes the driver remove
itself and revokes the device if that fails, and both end in a device that is
withdrawn. Which of the two it was only decides whether the service is `Stopped` or
`Failed`; the endpoint is closed and the process ended either way.

That `stop` gets so far rests on the device being quiesced and bound when it is
called. A service becomes `Quiescing` in the call that quiesces its device, and no
call of the supervisor touches that device again before `stop`: the other calls
refuse a service in that state, and no other record is for that device. `Watched`
carries this along a run, which remembers of each device how the supervisor left it.

`recover_crash` has two ways out before it revokes anything. It asks for the state of
the process and passes an error on, so a process that was already waited for is
never recovered from, and it returns when the driver does not quiesce.

## Theorems

* `detach_withdraws`, `endProcess_ends`, `stop_withdraws`: What `stop` does to the device
  and the process.
* `stop_revokes`: `stop` takes the device back.
* `recovers_iff`: When `recover_crash` does.
* `crash_not_recovered`: Two services it leaves as they are.
-/

namespace Norx

namespace Service

open Fallible Framework Arena

/-! ### Stopping -/

variable {driver : Driver} {s : Scene}

/-- Whatever the callback of `remove` returns, the device is withdrawn: a failed
    `remove` leaves it where `revoke` takes over. -/
theorem detach_withdraws (hremove : ∀ op, driver.removeOp = some op → Keeps op)
    (hstate : s.device.state = .quiescing) (hbound : s.device.driver = some driver.id) :
    wp (detach driver) (fun _ s' => Withdrawn s'.device ∧ s'.processes = s.processes)
      (fun _ _ => False) s := by
  rw [detach, wp_bind, wp_attempt]
  apply wp_onDevice
  · intro _ d hrun
    have hspec := wp_ok hrun (remove_spec hremove s.device)
    exact ⟨hspec.2.2, rfl⟩
  · intro _ d hrun
    have hspec := wp_error hrun (remove_spec hremove s.device)
    have hrevocable : d.driver = some driver.id ∧ (d.state = .quiescing ∨ d.state = .failed) := by
      rcases hspec with rfl | ⟨-, -, hs, hdriver, -⟩
      · exact ⟨hbound, .inl hstate⟩
      · exact ⟨hdriver.trans hbound, .inr hs⟩
    rw [wp_bind, wp_attempt]
    apply wp_onDevice
    · intro _ d' hrun'
      have hspec := wp_ok hrun' (revoke_spec driver d)
      exact ⟨hspec.2, rfl⟩
    · intro _ d' hrun'
      have hspec := wp_error hrun' (revoke_spec driver d)
      exact absurd hrevocable hspec.2

variable {process : Process.ProcessId} {slot : Nat}

/-- A process that has exited is a zombie. -/
theorem processState_exited {t : Process.ProcessTable} {record : Process.ProcessRecord}
    (h : t.locateProcess process = some (slot, record)) (status : Int32) :
    processState (Process.exited t process slot record status) process = .ok .zombie := by
  rcases locate_eq_some.mp h with ⟨hslot, hgeneration, hget, hname⟩
  have hid : (Process.bury process status record).id = record.id :=
    Process.adopt_id process record
  have hlocate : (Process.exited t process slot record status).locateProcess process
      = some (slot, Process.bury process status record) :=
    locate_eq_some.mpr ⟨hslot, hgeneration, Slots.get_set_self _ _ (lt_of_get_some hget),
      (congrArg Process.ProcessId.raw hid).trans hname⟩
  rw [processState, Process.process_ok.mpr ⟨slot, hlocate⟩]
  rfl

theorem endProcess_ends (failure : Option Error)
    (h : process ≠ Process.ProcessId.init ∨ processState s.processes process ≠ .ok .running) :
    wp (endProcess process failure)
      (fun _ s' => s'.device = s.device ∧ processState s'.processes process ≠ .ok .running)
      (fun _ _ => False) s := by
  rw [endProcess, wp_bind, wp_read]
  rcases hstate : processState s.processes process with e | state
  · cases e with
    | _ => exact ⟨rfl, by rw [hstate]; rintro ⟨⟩⟩
  · cases state with
    | running =>
      rcases h with hinit | hnot
      · rcases processState_ok hstate with ⟨record, hrecord, hrunning⟩
        rcases Process.process_ok.mp hrecord with ⟨slot, hlocate⟩
        have hexit := Process.exit_running 0 hinit hlocate hrunning
        rw [wp_bind, wp_attempt]
        apply wp_onProcesses
        · intro _ t hrun
          have ht := wp_ok hrun hexit
          refine ⟨rfl, ?_⟩
          rw [ht, processState_exited hlocate]
          rintro ⟨⟩
        · intro _ t hrun
          exact (wp_error hrun hexit).elim
      · exact absurd hstate hnot
    | _ => exact ⟨rfl, by rw [hstate]; rintro ⟨⟩⟩

variable {record : ServiceRecord}

/-- What `stop` does to the device and the process of a service that is quiescing
    and whose device is. -/
theorem stop_withdraws {handle : ServiceHandle}
    (hrecord : s.supervisor.record handle = .ok (slot, record))
    (hquiescing : record.state = .quiescing)
    (hvalid : validateDevice record s.device driver = .ok ()) (hstate : s.device.state = .quiescing)
    (hprocess : record.process ≠ Process.ProcessId.init ∨ processState s.processes record.process ≠ .ok .running)
    (hremove : ∀ op, driver.removeOp = some op → Keeps op) :
    wp (stop handle driver)
      (fun _ s' => Withdrawn s'.device ∧ processState s'.processes record.process ≠ .ok .running ∧
        s'.supervisor = s.supervisor.put slot (some (record.halted .stopped)))
      (fun _ s' => Withdrawn s'.device ∧ processState s'.processes record.process ≠ .ok .running ∧
        s'.supervisor = s.supervisor.put slot (some (record.halted .failed))) s := by
  have hrest : wp (stop handle driver)
      (fun _ s' => Withdrawn s'.device ∧ processState s'.processes record.process ≠ .ok .running)
      (fun _ s' => Withdrawn s'.device ∧ processState s'.processes record.process ≠ .ok .running)
      s := by
    rw [stop, wp_bind]
    refine wp_lift_ok hrecord ?_
    rw [wp_bind]
    refine wp_lift_ok hvalid ?_
    rw [wp_ite]
    refine ⟨fun hnot => absurd hquiescing hnot, fun _ => ?_⟩
    rw [wp_bind]
    apply wp_never (detach_withdraws hremove hstate (validateDevice_ok.mp hvalid).2.2)
    rintro failure s₁ ⟨hwithdrawn, hprocesses⟩
    rw [wp_bind]
    apply wp_never (checkRemoved_spec failure s₁)
    rintro failure s₁ rfl
    rw [wp_bind]
    apply wp_never (endProcess_ends failure (by rw [hprocesses]; exact hprocess))
    rintro failure s₂ ⟨hdevice, hended⟩
    rw [← hdevice] at hwithdrawn
    cases failure with
    | none | some => exact ⟨hwithdrawn, hended⟩
  apply wp_mono (wp_and hrest (stop_halts handle driver hrecord))
  · rintro _ s' ⟨⟨hwithdrawn, hended⟩, -, -, hs'⟩
    exact ⟨hwithdrawn, hended, hs'⟩
  · rintro _ s' ⟨⟨hwithdrawn, hended⟩, rfl | ⟨-, -, hs'⟩⟩
    · rw [hwithdrawn.state] at hstate
      cases hstate
    · exact ⟨hwithdrawn, hended, hs'⟩

/-! ### A run -/

/-- The supervisor, and how it left each device it changed. -/
structure World where
  supervisor : Supervisor
  last : DeviceId → Option Device

/-- A call, with what is remembered of the device if it changed it. -/
def watch (w : World) (request : Request) : World :=
  let left := (request.outcome w.supervisor).2
  { supervisor := left.supervisor
    last := if left.device = request.device then w.last
      else Function.update w.last request.device.id (some left.device) }

def World.new : World := { supervisor := Supervisor.new, last := fun _ => none }

/-- The callback of `quiesce` leaves the device the same device, bound to the same
    driver. -/
def Stays (driver : Driver) : Prop :=
  ∀ op, driver.quiesceOp = some op → Holds (fun d d' => d'.id = d.id ∧ d'.driver = d.driver) op

/-- The device of a quiescing service. -/
structure Waiting (record : ServiceRecord) (d : Device) : Prop where
  id : d.id = record.device
  state : d.state = .quiescing
  bound : d.driver = some record.driver.id

/-- What a run keeps. -/
structure Watched (w : World) : Prop where
  single : ∀ (i j : Nat) r r', w.supervisor.records.get i = some r →
    w.supervisor.records.get j = some r' → r.device = r'.device → i = j
  process : ∀ (i : Nat) r, w.supervisor.records.get i = some r →
    r.process ≠ Process.ProcessId.init
  waiting : ∀ (i : Nat) r, w.supervisor.records.get i = some r → r.state = .quiescing →
    ∃ d, w.last r.device = some d ∧ Waiting r d

theorem Quiesced.waiting (hstays : Stays driver) {d d' : Device} (hown : record.device = d.id)
    (h : Quiesced driver record d d') : d' ≠ d ∧ Waiting (record.halted .quiescing) d' := by
  have hspec := wp_ok h.quiesced (quiesce_spec
    (R := fun d d' => d'.id = d.id ∧ d'.driver = d.driver) (fun _ => ⟨rfl, rfl⟩) hstays d)
  rcases hspec with ⟨hbound, hstate, d₁, ⟨hid, hdriver⟩, rfl⟩
  refine ⟨fun hsame => ?_, hid.trans hown.symm, rfl, ?_⟩
  · rw [← hsame] at hstate
    rcases hstate with hstate | hstate
    · exact nomatch hstate
    · exact nomatch hstate
  · change d₁.driver = some record.driver.id
    rw [hdriver, hbound, h.own]

variable {w : World} {request : Request}

theorem watch_last_same (hd : (request.outcome w.supervisor).2.device = request.device) :
    (watch w request).last = w.last := by
  rw [watch, if_pos hd]

theorem watch_last_other {device : DeviceId} (h : device ≠ request.device.id) :
    (watch w request).last device = w.last device := by
  change (if _ then w.last else Function.update w.last _ _) device = _
  split
  · rfl
  · rw [Function.update_of_ne h]

theorem watch_last_changed (hd : (request.outcome w.supervisor).2.device ≠ request.device) :
    (watch w request).last request.device.id
      = some (request.outcome w.supervisor).2.device := by
  change (if _ then w.last else Function.update w.last _ _) _ = _
  rw [if_neg hd, Function.update_self]

/-- A call that writes a record for a device that no other slot has. -/
theorem watched_put (h : Watched w) {new : ServiceRecord}
    (hs : (watch w request).supervisor = w.supervisor.put slot (some new))
    (hdevice : ∀ (i : Nat) r, i ≠ slot → w.supervisor.records.get i = some r →
      r.device ≠ new.device)
    (hprocess : new.process ≠ Process.ProcessId.init)
    (hlast : ∀ device, device ≠ new.device → (watch w request).last device = w.last device)
    (hwaiting : new.state = .quiescing → ∃ d, (watch w request).last new.device = some d ∧
      Waiting new d) : Watched (watch w request) := by
  constructor <;> rw [hs]
  · exact single_put h.single hdevice
  · intro i r hr
    rcases get_set_some hr with ⟨-, ⟨⟩⟩ | ⟨-, hr⟩
    · exact hprocess
    · exact h.process i r hr
  · intro i r hr hquiescing
    rcases get_set_some hr with ⟨-, ⟨⟩⟩ | ⟨hi, hr⟩
    · exact hwaiting hquiescing
    · rw [hlast r.device (hdevice i r hi hr)]
      exact h.waiting i r hr hquiescing

theorem watched_step (h : Watched w) (hstays : Stays request.driver) :
    Watched (watch w request) := by
  have hc := step_change w.supervisor request
  generalize event w.supervisor request = e at hc
  have halone : ∀ (slot : Nat) record, w.supervisor.records.get slot = some record →
      ∀ (i : Nat) r, i ≠ slot → w.supervisor.records.get i = some r → r.device ≠ record.device :=
    fun slot record hget i r hi hr hsame => hi (h.single i slot r record hr hget hsame)
  cases hc with
  | same hs hd =>
    have hs : (watch w request).supervisor = w.supervisor := hs
    refine ⟨by rw [hs]; exact h.single, by rw [hs]; exact h.process, ?_⟩
    rw [hs, watch_last_same hd]
    exact h.waiting
  | @registered slot record hlt hfree hdevice hstate _ _ hlive hs hd =>
    exact watched_put h hs (fun i r _ => hdevice i r) hlive.notInit
      (fun device _ => by rw [watch_last_same hd]) fun hc => by cases hstate.symm.trans hc
  | @started slot record hget hstate hs hd =>
    exact watched_put h hs (halone slot record hget) (h.process slot record hget)
      (fun device _ => by rw [watch_last_same hd]) (by rintro ⟨⟩)
  | @halted slot record state hget hown hwas hstate hquiesced hs =>
    refine watched_put h hs (halone slot record hget) (h.process slot record hget)
      (fun device hne => watch_last_other fun hsame => hne (hsame.trans hown.symm)) ?_
    intro hquiescing
    rcases (hquiesced hquiescing).waiting hstays hown with ⟨hchanged, hwaiting⟩
    refine ⟨_, ?_, hquiescing ▸ hwaiting⟩
    rw [show (record.halted state).device = request.device.id from hown]
    exact watch_last_changed hchanged
  | @restarted slot record process thread hget hown _ _ hlive hs =>
    exact watched_put h hs (halone slot record hget) hlive.notInit
      (fun device hne => watch_last_other fun hsame => hne (hsame.trans hown.symm)) (by rintro ⟨⟩)
  | @notRestarted slot record hget hown hwas hs =>
    have hget : w.supervisor.records.get slot = some record := hget
    -- The service is not quiescing, so its record may be written back.
    refine watched_put h (hs.trans ?_) (halone slot record hget) (h.process slot record hget)
      (fun device hne => watch_last_other fun hsame => hne (hsame.trans hown.symm)) ?_
    · change w.supervisor = w.supervisor.put slot (some record)
      rw [Supervisor.put, ← hget, Slots.set_get]
    · intro hquiescing
      rcases hwas with hwas | hwas
      · cases hwas.symm.trans hquiescing
      · cases hwas.symm.trans hquiescing
  | removed slot generations _ hs hd =>
    have hback : ∀ (i : Nat) r, (watch w request).supervisor.records.get i = some r →
        w.supervisor.records.get i = some r := by
      intro i r hr
      change (request.outcome w.supervisor).2.supervisor.records.get i = some r at hr
      rw [hs] at hr
      rcases get_set_some hr with ⟨-, ⟨⟩⟩ | ⟨-, hr⟩
      exact hr
    refine ⟨fun i j r r' hr hr' => h.single i j r r' (hback i r hr) (hback j r' hr'),
      fun i r hr => h.process i r (hback i r hr), fun i r hr => ?_⟩
    rw [watch_last_same hd]
    exact h.waiting i r (hback i r hr)

/-! ### The result for `stop` -/

/-- What a stopped service leaves: no endpoint, no device and no process. -/
structure Stopped (handle : ServiceHandle) (process : Process.ProcessId) (s : Scene) : Prop where
  service : ∃ slot record, s.supervisor.record handle = .ok (slot, record) ∧
    record.endpointActive = false ∧ (record.state = .stopped ∨ record.state = .failed)
  device : Withdrawn s.device
  process : processState s.processes process ≠ .ok .running

/-- Init and a child of it. -/
def served : Process.ProcessTable :=
  (Process.spawnChild Process.ProcessId.init Process.Credentials.bootstrap
    (Process.createInit Process.ProcessTable.new).2).2

/-- A published device that driver 1 has. -/
def servedDevice : Device :=
  { Device.new 7 0 .virtio .block with state := .ready, driver := some 1, published := true }

/-- Registering a service for the device in the child and starting it. -/
def serving (driver : Driver) : List Request :=
  [⟨.register (.new 1 0) (.new 1 0), servedDevice, driver, served⟩,
    ⟨.start ⟨0, 0⟩, servedDevice, driver, served⟩]

theorem found_of_any {x : Except Error (Nat × ServiceRecord)} {p : ServiceRecord → Bool}
    (h : x.toOption.any (fun found => p found.2) = true) :
    ∃ slot record, x = .ok (slot, record) ∧ p record = true := by
  cases x with
  | error e => exact nomatch h
  | ok found => exact ⟨found.1, found.2, rfl, h⟩

/-- What a service leaves that was recovered from. -/
structure Recovered (handle : ServiceHandle) (s : Scene) : Prop where
  service : ∃ slot record, s.supervisor.record handle = .ok (slot, record) ∧
    record.state = .failed ∧ record.endpointActive = false
  unpublished : s.device.published = false
  unbound : s.device.driver = none
  empty : s.device.resources = []

/-- The callback of `quiesce` leaves the standing of the device, and the device the
    same. -/
def QuiesceKeeps (driver : Driver) : Prop :=
  ∀ op, driver.quiesceOp = some op →
    Holds (fun d d' => d'.standing = d.standing ∧ d'.id = d.id) op

section RecoverCrash

variable {handle : ServiceHandle} {driver : Driver} {s : Scene} {slot : Nat}
  {record : ServiceRecord} (hrecord : s.supervisor.record handle = .ok (slot, record))
  (hrunning : record.state = .running) (hvalid : validateDevice record s.device driver = .ok ())
  (hprocess : processState s.processes record.process ≠ .ok .running)

include hrecord hrunning hvalid hprocess

/-- `recover_crash` past its checks: it returns at once if the process is unknown. -/
theorem wp_recoverCrash {Q : Bool → Scene → Prop} {E : Error → Scene → Prop}
    (hunknown : ∀ e, processState s.processes record.process = .error e → E (.process e) s)
    (hknown : ∀ state, processState s.processes record.process = .ok state →
      wp (quiesce handle driver) (fun _ s₁ => wp (stop handle driver)
        (fun _ s₂ => (∀ found : Nat × ServiceRecord, s₂.supervisor.record handle = .ok found →
            Q true ⟨s₂.supervisor.put slot (some (found.2.halted .failed)), s₂.device,
              s₂.processes⟩) ∧
          ∀ e, s₂.supervisor.record handle = .error e → E e s₂) E s₁) E s) :
    wp (recoverCrash handle driver) Q E s := by
  rw [recoverCrash, wp_bind]
  refine wp_lift_ok hrecord ?_
  rw [wp_bind]
  refine wp_lift_ok hvalid ?_
  rw [wp_ite]
  refine ⟨fun hnot => absurd hrunning hnot, fun _ => ?_⟩
  rw [wp_bind, wp_lift]
  cases hstate : processState s.processes record.process with
  | error e =>
    refine ⟨fun _ hok => (by cases hok), fun e' he => ?_⟩
    rw [← Except.error.inj he]
    exact hunknown e hstate
  | ok state =>
    refine ⟨fun state' hok => ?_, fun _ herror => by cases herror⟩
    obtain rfl := Except.ok.inj hok
    rw [wp_ite]
    refine ⟨fun hsame => absurd (hsame ▸ hstate) hprocess, fun _ => ?_⟩
    simp
    apply wp_post (hknown state hstate)
    intro _ s₁ h₁
    apply wp_post h₁
    intro _ s₂ h₂
    rw [wp_lift]
    exact h₂

/-- A running service whose process no longer runs, called with its driver and its
    device: `recover_crash` takes the device back, whatever `remove` does, exactly if
    the id of the process is still known and the driver quiesces the device. -/
theorem recovers_iff (hquiesce : QuiesceKeeps driver)
    (hremove : ∀ op, driver.removeOp = some op → Keeps op) :
    Recovered handle (recoverCrash handle driver s).2 ↔
      (∃ state, processState s.processes record.process = .ok state) ∧
        ∃ d, Framework.quiesce driver s.device = (.ok (), d) := by
  rcases validateDevice_ok.mp hvalid with ⟨hown, hdriver, hbound⟩
  have hspec := quiesce_spec (R := fun d d' => d'.standing = d.standing ∧ d'.id = d.id)
    (fun _ => ⟨rfl, rfl⟩) hquiesce s.device
  cases hstate : processState s.processes record.process with
  | error e =>
    -- Nothing has happened, and the service still runs.
    have hsame : (recoverCrash handle driver s).2 = s :=
      of_wp (P := fun s' => s' = s) (wp_recoverCrash hrecord hrunning hvalid hprocess
        (fun _ _ => rfl) fun state hok => (nomatch hstate.symm.trans hok))
    rw [hsame]
    refine ⟨fun h => ?_, fun h => (nomatch h.1.choose_spec)⟩
    rcases h.service with ⟨_, record', hrecord', hfailed, -⟩
    obtain ⟨rfl, rfl⟩ := Prod.mk.inj (Except.ok.inj (hrecord.symm.trans hrecord'))
    exact nomatch hrunning.symm.trans hfailed
  | ok state =>
    rcases hrun : Framework.quiesce driver s.device with ⟨e | _, d⟩
    · -- The driver keeps the device.
      have hkept : (recoverCrash handle driver s).2.device.driver = some driver.id := by
        apply of_wp (P := fun s' : Scene => s'.device.driver = some driver.id)
        apply wp_recoverCrash hrecord hrunning hvalid hprocess (fun _ _ => hbound)
        intro _ _
        apply wp_mono (quiesce_halts handle driver hrecord)
        · rintro _ s₁ ⟨-, -, hquiesced, -⟩
          exact nomatch hrun.symm.trans hquiesced.quiesced
        · rintro _ s₁ (⟨rfl, -⟩ | ⟨-, -, ⟨e', hrun'⟩, -⟩)
          · exact hbound
          · rcases wp_error hrun' hspec with hsame | ⟨-, hstanding, -⟩
            · rw [hsame, hbound]
            · rw [(standing_eq.mp hstanding).2.1, hbound]
      refine ⟨fun h => ?_, fun h => (nomatch h.2.choose_spec)⟩
      exact nomatch h.unbound.symm.trans hkept
    · have hdone : Recovered handle (recoverCrash handle driver s).2 := by
        apply of_wp (P := Recovered handle)
        apply wp_recoverCrash hrecord hrunning hvalid hprocess
          (fun _ herror => (nomatch hstate.symm.trans herror))
        intro _ _
        apply wp_mono (quiesce_halts handle driver hrecord)
        · rintro _ s₁ ⟨-, -, hquiesced, hprocesses, hs₁⟩
          rcases wp_ok hquiesced.quiesced hspec with ⟨-, -, d₁, ⟨hstanding, hid⟩, hd₁⟩
          have h₁ : s₁.supervisor.record handle = .ok (slot, record.halted .quiescing) := by
            rw [hs₁]
            exact Supervisor.record_put hrecord _
          have hvalid₁ : validateDevice (record.halted .quiescing) s₁.device driver = .ok () := by
            rw [hd₁]
            exact validateDevice_ok.mpr ⟨hown.trans hid.symm, hdriver,
              (standing_eq.mp hstanding).2.1.trans hbound⟩
          apply wp_mono (stop_withdraws h₁ rfl hvalid₁ (by rw [hd₁])
            (.inr (by rw [hprocesses]; exact hprocess)) hremove)
          · rintro _ s₂ ⟨hwithdrawn, -, hs₂⟩
            have h₂ : s₂.supervisor.record handle = .ok (slot, record.halted .stopped) := by
              rw [hs₂]
              exact Supervisor.record_put h₁ _
            refine ⟨fun found hfound => ?_, fun e he => (nomatch h₂.symm.trans he)⟩
            exact ⟨⟨slot, _, Supervisor.record_put h₂ _, rfl, rfl⟩, hwithdrawn.unpublished,
              hwithdrawn.unbound, hwithdrawn.empty⟩
          · rintro _ s₂ ⟨hwithdrawn, -, hs₂⟩
            exact ⟨⟨slot, _, by rw [hs₂]; exact Supervisor.record_put h₁ _, rfl, rfl⟩,
              hwithdrawn.unpublished, hwithdrawn.unbound, hwithdrawn.empty⟩
        · rintro _ s₁ (⟨-, hrefused⟩ | ⟨-, -, ⟨e', hrun'⟩, -⟩)
          · exact absurd ⟨hrunning, hvalid⟩ hrefused
          · exact nomatch hrun.symm.trans hrun'
      exact ⟨fun _ => ⟨⟨state, rfl⟩, d, rfl⟩, fun _ => hdone⟩

end RecoverCrash

/-- The child has exited and init has waited for it. -/
def waitedFor : Process.ProcessTable :=
  (Process.wait Process.ProcessId.init none (Process.exit (.new 1 0) 0 served).2).2

/-- The child has exited and nobody has waited for it. -/
def crashed : Process.ProcessTable := (Process.exit (.new 1 0) 0 served).2

/-- A driver with a `quiesce` of its own. -/
def stubborn (quiesces : DeviceCallback) : Driver :=
  { id := 1, class_ := .block, bus := .virtio,
    ops := some { probe := pure (), suspend := none, resume := none, quiesce := some quiesces,
                  remove := pure () } }

theorem recovers_crashed :
    let s := (run watch World.new (serving (plainDriver (pure ())))).supervisor
    ∃ slot record, s.record ⟨0, 0⟩ = .ok (slot, record) ∧ record.state = .running ∧
      Recovered ⟨0, 0⟩ (recoverCrash ⟨0, 0⟩ (plainDriver (fail .removeFailed))
        ⟨s, servedDevice, crashed⟩).2 := by
  intro s
  have hrun : (s.record ⟨0, 0⟩).toOption.any (fun found => decide (found.2.state = .running) &&
      (validateDevice found.2 servedDevice (plainDriver (fail .removeFailed))).isOk &&
      decide (processState crashed found.2.process = .ok .zombie)) = true := by
    decide +kernel
  rcases found_of_any (p := fun record => decide (record.state = .running) &&
    (validateDevice record servedDevice (plainDriver (fail .removeFailed))).isOk &&
    decide (processState crashed record.process = .ok .zombie)) hrun
    with ⟨slot, record, hrecord, hfacts⟩
  simp only [Bool.and_eq_true, decide_eq_true_eq] at hfacts
  rcases hfacts with ⟨⟨hrunning, hisOk⟩, hzombie⟩
  have hvalid : validateDevice record servedDevice (plainDriver (fail .removeFailed)) = .ok () := by
    cases hcheck : validateDevice record servedDevice (plainDriver (fail .removeFailed)) with
    | ok _ => rfl
    | error e =>
      rw [hcheck] at hisOk
      exact nomatch hisOk
  have hiff := recovers_iff (s := ⟨s, servedDevice, crashed⟩) hrecord hrunning hvalid
    (by rw [hzombie]; exact nofun) nofun (by rintro _ ⟨rfl⟩ d; rfl)
  exact ⟨slot, record, hrecord, hrunning, hiff.mpr ⟨⟨.zombie, hzombie⟩, _, rfl⟩⟩

/-- A service whose process has been waited for, and one whose driver does not
    quiesce: the first still runs with its endpoint open, and the second has failed
    but its device is still published and bound. -/
theorem crash_not_recovered :
    let s := (run watch World.new (serving (plainDriver (pure ())))).supervisor
    let first := recoverCrash ⟨0, 0⟩ (plainDriver (pure ())) ⟨s, servedDevice, waitedFor⟩
    let second := recoverCrash ⟨0, 0⟩ (stubborn (fail .timeout)) ⟨s, servedDevice, crashed⟩
    (first.1 = .error (.process .invalidId) ∧ (first.2.supervisor.record ⟨0, 0⟩).map
      (fun found => (found.2.state, found.2.endpointActive)) = .ok (.running, true)) ∧
    (second.1 = .error (.driver .timeout) ∧ second.2.device = servedDevice) ∧
    ¬ Recovered ⟨0, 0⟩ first.2 ∧ ¬ Recovered ⟨0, 0⟩ second.2 := by
  intro s first second
  have hfirst : first.1 = .error (.process .invalidId) ∧
      (first.2.supervisor.record ⟨0, 0⟩).map
        (fun found => (found.2.state, found.2.endpointActive)) = .ok (.running, true) := by
    decide +kernel
  have hsecond : second.1 = .error (.driver .timeout) ∧ second.2.device = servedDevice := by
    decide +kernel
  refine ⟨hfirst, hsecond, fun h => ?_, fun h => ?_⟩
  · rcases h.service with ⟨slot, record, hrecord, hfailed, -⟩
    have hstate := hfirst.2
    rw [hrecord] at hstate
    exact nomatch hfailed.symm.trans (Prod.mk.inj (Except.ok.inj hstate)).1
  · have hunbound := h.unbound
    rw [hsecond.2] at hunbound
    exact nomatch hunbound

end Service

end Norx
