import Norx.Service.Revoke

/-!
# Handles That Do Not Come Back

A handle is a slot of the table in a generation. Removing a service raises the
generation of its slot, and no call lowers it, so the handle of the service is
refused from then on, whatever is registered in the slot.

The record is cleared before the generation is raised. The last generation has no
successor: there the call fails with the record gone and the generation as it was,
and the next registration in the slot gives out the same handle.

## Theorems

* `generations_step`: No call lowers a generation.
* `handle_retired`: The handle of a service that was removed is refused.
* `handle_returns`: A handle of the last generation that is given out twice.
-/

namespace Norx

namespace Service

open Fallible Framework

/-- The handle a call is about. -/
def Call.subject : Call → Option ServiceHandle
  | register .. => none
  | start handle | quiesce handle | stop handle | restart handle .. | recoverCrash handle
  | unregister handle => some handle

namespace Supervisor

def state (s : Supervisor) (handle : ServiceHandle) : Except Error ServiceState :=
  (s.record handle).map (·.2.state)

def endpointActive (s : Supervisor) (handle : ServiceHandle) : Except Error Bool :=
  (s.record handle).map (·.2.endpointActive)

def restartCount (s : Supervisor) (handle : ServiceHandle) : Except Error UInt8 :=
  (s.record handle).map (·.2.restarts)

/-- Every operation refuses the handle, and leaves everything as it is. -/
structure Refuses (s : Supervisor) (handle : ServiceHandle) : Prop where
  state : s.state handle = .error .invalidHandle
  endpointActive : s.endpointActive handle = .error .invalidHandle
  restartCount : s.restartCount handle = .error .invalidHandle
  call : ∀ request : Request, request.call.subject = some handle →
    request.outcome s = (.error .invalidHandle, request.scene s)

/-- The slot of the handle has moved on. -/
def Retired (s : Supervisor) (handle : ServiceHandle) : Prop :=
  handle.generation < s.generations.get handle.slot.toNat

variable {s : Supervisor} {handle : ServiceHandle}

theorem refuses_of_retired (h : s.Retired handle) : s.Refuses handle := by
  have hrecord : s.record handle = .error .invalidHandle :=
    if_pos (.inr (UInt16.ne_of_lt h).symm)
  refine ⟨by rw [Supervisor.state, hrecord]; rfl, by rw [Supervisor.endpointActive, hrecord]; rfl,
    by rw [Supervisor.restartCount, hrecord]; rfl, fun request hsubject => ?_⟩
  rcases request with ⟨call, device, driver, processes⟩
  refine Prod.mk.eta.symm.trans (eq_of_wp id ?_)
  cases call <;> cases hsubject <;>
    simp [Call.perform, start, quiesce, stop, restart, recoverCrash, unregister, wp_lift, hrecord,
      Request.scene]

end Supervisor

/-- No call lowers the generation of a slot. -/
theorem generations_step (s : Supervisor) (request : Request) (i : Nat) :
    s.generations.get i ≤ (step s request).generations.get i := by
  have hc := step_change s request
  generalize event s request = e at hc
  unfold step
  cases hc with
  | removed slot generations hle hs =>
    rw [hs]
    exact hle i
  | same hs | registered _ _ _ _ _ _ _ _ hs | started _ _ hs | halted _ _ _ _ _ _ hs
  | restarted _ _ _ _ _ hs | notRestarted _ _ _ hs =>
    rw [hs]
    exact UInt16.le_refl _

/-- Below the last generation `unregister` fails without a trace, or the slot of the
    handle moves on. -/
theorem unregister_retires {handle : ServiceHandle} (h : handle.generation ≠ 65535) (s : Scene) :
    wp (unregister handle) (fun _ s' => s'.supervisor.Retired handle) (fun _ s' => s' = s) s := by
  rw [unregister, wp_bind, wp_lift]
  refine ⟨?_, fun _ _ => rfl⟩
  rintro ⟨slot, record⟩ hrecord
  rcases Supervisor.record_ok.mp hrecord with ⟨rfl, hlt, hgeneration, -⟩
  rw [wp_ite]
  refine ⟨fun _ => rfl, fun _ => ?_⟩
  rw [wp_bind, wp_modify, wp_bind, wp_lookup]
  refine ⟨fun g hg => ?_, fun hnone => absurd ?_ h⟩
  · have hnext := Arena.checkedSucc_eq_some.mp hg
    change handle.generation < Slots.get _ _
    rw [Slots.get_set_self _ _ hlt, UInt16.lt_iff_toNat_lt, hnext, ← hgeneration]
    exact Nat.lt_succ_self _
  · rw [← hgeneration]
    exact Arena.checkedSucc_eq_none.mp hnone

/-- For a handle below the last generation: an `unregister` that fails leaves the
    supervisor as it is, and once one has removed the service of the handle, the handle
    is refused after any further calls. -/
theorem handle_retired (s : Supervisor) (handle : ServiceHandle)
    (hgeneration : handle.generation ≠ 65535) (request : Request)
    (hcall : request.call = .unregister handle) :
    ((∃ e, (request.outcome s).1 = .error e) → step s request = s) ∧
    ((∃ found, s.record handle = .ok found) →
      (step s request).records.get handle.slot.toNat = none →
      ∀ later, (run step (step s request) later).Refuses handle) := by
  rcases request with ⟨call, device, driver, processes⟩
  subst hcall
  have hwp : wp (Call.perform driver (.unregister handle))
      (fun _ s' => s'.supervisor.Retired handle) (fun _ s' => s' = ⟨s, device, processes⟩)
      ⟨s, device, processes⟩ := by
    rw [Call.perform, wp_bind]
    exact unregister_retires hgeneration _
  rw [step, Request.outcome]
  rcases hrun : Call.perform driver (.unregister handle) ⟨s, device, processes⟩ with ⟨e | _, s'⟩
  · rw [wp_error hrun hwp]
    refine ⟨fun _ => rfl, ?_⟩
    rintro ⟨⟨slot, record⟩, hrecord⟩ hnone
    rcases Supervisor.record_ok.mp hrecord with ⟨rfl, -, -, hget⟩
    cases hnone.symm.trans hget
  · have hretired := wp_ok hrun hwp
    refine ⟨by rintro ⟨_, ⟨⟩⟩, fun _ _ later => Supervisor.refuses_of_retired ?_⟩
    exact run_keeps step (P := fun s => s.Retired handle)
      (fun s request h => UInt16.lt_of_lt_of_le h (generations_step s request _)) later hretired

def registering : Request :=
  ⟨.register (.new 1 0) (.new 1 0), servedDevice, plainDriver (pure ()), served⟩

def unregistering (generation : UInt16) : Request :=
  ⟨.unregister ⟨0, generation⟩, servedDevice, plainDriver (pure ()), served⟩

/-- The slot is taken again, and the first handle is refused. -/
theorem handle_retired_first :
    let s := run step Supervisor.new [registering, unregistering 0, registering]
    (s.records.get 0).isSome ∧ s.Refuses ⟨0, 0⟩ :=
  ⟨by decide +kernel, (handle_retired (step Supervisor.new registering) ⟨0, 0⟩ (by decide)
    (unregistering 0) rfl).2 ⟨_, rfl⟩ rfl [registering]⟩

/-! ### The last generation -/

/-- An empty table whose first slot has come to a generation. -/
def aged (generation : UInt16) : Supervisor :=
  { Supervisor.new with generations := Supervisor.new.generations.set 0 generation }

/-- Below the last generation, registering and removing a service is one more. -/
theorem aged_step {generation : UInt16} (h : generation ≠ 65535) :
    run step (aged generation) [registering, unregistering generation] = aged (generation + 1) := by
  have hfirst : step (aged generation) registering = (aged generation).put 0 (some
      ⟨7, plainDriver (pure ()), .new 1 0, .new 1 0, .registered, false, 0⟩) := rfl
  have hget : (aged generation).generations.get 0 = generation :=
    Slots.get_set_self _ _ (by decide)
  have hsucc : Arena.checkedSucc generation = some (generation + 1) := if_neg h
  rw [run, run, run, hfirst]
  apply of_wp (P := fun s' : Scene => s'.supervisor = aged (generation + 1))
  rw [unregistering, Call.perform, wp_bind, unregister, wp_bind]
  refine wp_lift_ok (Supervisor.record_ok.mpr ⟨rfl, show 0 < maxServices by decide,
    hget, rfl⟩) ?_
  simp [Supervisor.put, hget, hsucc, Slots.set_set]
  simp [aged, Slots.set_set]
  exact Slots.set_get Supervisor.new.records 0

/-- Services registered and removed, one in each of the generations before `n`. -/
def cycles (n : Nat) : List Request :=
  (List.range n).flatMap fun i => [registering, unregistering (UInt16.ofNat i)]

theorem run_cycles (n : Nat) (h : n ≤ 65535) :
    run step Supervisor.new (cycles n) = aged (UInt16.ofNat n) := by
  induction n with
  | zero =>
    have hsame := Slots.set_get Supervisor.new.generations 0
    exact congrArg (Supervisor.mk _) hsame.symm
  | succ n ih =>
    have hne : UInt16.ofNat n ≠ 65535 := by
      intro hc
      have := congrArg UInt16.toNat hc
      simp at this
      omega
    rw [cycles, List.range_succ, List.flatMap_append, run_append, ← cycles, ih (by omega)]
    rw [List.flatMap_singleton, aged_step hne]
    simp

/-- A service in the last generation of its slot. Removing it fails, but the record
    is gone; and its handle is the handle of the next service that is registered. -/
theorem handle_returns :
    let s := run step Supervisor.new (cycles 65535 ++ [registering])
    let request := unregistering 65535
    s.state ⟨0, 65535⟩ = .ok .registered ∧
      (request.outcome s).1 = .error .generationExhausted ∧
      ((step s request).records.get 0).isNone ∧ step s request ≠ s ∧
      (run step s [request, registering]).state ⟨0, 65535⟩ = .ok .registered := by
  have hs : run step Supervisor.new (cycles 65535 ++ [registering])
      = step (aged 65535) registering := by
    rw [run_append, run_cycles 65535 le_rfl]
    rfl
  rw [hs]
  intro s request
  have hgone : ((step s request).records.get 0).isNone := by decide +kernel
  refine ⟨by decide +kernel, by decide +kernel, hgone, fun hsame => ?_, by decide +kernel⟩
  rw [hsame] at hgone
  exact absurd hgone (by decide +kernel)

end Service

end Norx
