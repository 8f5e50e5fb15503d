import Norx.Framework.Effects
import Norx.Lib.Run

/-!
# The Life of a Device

A device is discovered and from then on only changed by the operations of the
framework, with any drivers whose callbacks do no more than add resources or
fail. What its state says about it:

* in a resting state (`Deferred`, `Unsupported`, `Busy`, `Removed`) it is
  unpublished, unbound and empty;
* in use (`Ready`, `Suspended`, `Quiescing`) it is bound;
* published it is in use, or `Failed` because a `remove` failed.

`Failed` is the exception to all of it. A `remove` whose callback fails leaves the
device failed, bound and published, so that `revoke` can still find its driver.
But the state machine also lets a failed device be probed again, and `probe` looks
at neither: it releases the resources, puts the device into a resting state and
leaves it bound and published. `device_lifecycle` is that nothing else goes wrong, and
`probed_after_failed_remove` that this does.

To say that a device is failed because of a `remove`, the system remembers whether
the last operation that changed the device was one.

## Main definitions

* `Op`, `World`, `step`: The operations as a system.

## Theorems

* `device_lifecycle`: The result.
* `probed_after_failed_remove`: Probing what a failed `remove` left.
-/

namespace Norx

namespace Framework

open Fallible List

/-! ### Callbacks that add resources -/

/-- Trying to add resources one after the other. -/
def addAll (resources : List Resource) (d : Device) : Device :=
  resources.foldl (fun d resource => (addResource resource d).2) d

/-- Whatever the callback returns, all it did is add resources. -/
def Adds (callback : DeviceCallback) : Prop :=
  ∀ d, ∃ resources, (callback d).2 = addAll resources d

theorem addResource_standing (resource : Resource) (d : Device) :
    ((addResource resource d).2).standing = d.standing := by
  apply of_wp (P := fun d' : Device => d'.standing = d.standing)
  simp [addResource, wp_lift, Device.standing]

theorem addAll_standing (resources : List Resource) (d : Device) :
    (addAll resources d).standing = d.standing := by
  induction resources generalizing d with
  | nil => rfl
  | cons resource rest ih => exact (ih _).trans (addResource_standing resource d)

theorem adds_keeps {callback : DeviceCallback} (h : Adds callback) : Keeps callback := by
  intro d
  rcases h d with ⟨resources, hd⟩
  rw [hd]
  exact addAll_standing resources d

/-- Every callback of the driver only adds resources or fails. -/
structure Driver.Adds (driver : Driver) : Prop where
  probe : ∀ ops, driver.ops = some ops → Framework.Adds ops.probe
  suspend : ∀ ops, driver.ops = some ops → ∀ op, ops.suspend = some op → Framework.Adds op
  resume : ∀ ops, driver.ops = some ops → ∀ op, ops.resume = some op → Framework.Adds op
  quiesce : ∀ ops, driver.ops = some ops → ∀ op, ops.quiesce = some op → Framework.Adds op
  remove : ∀ ops, driver.ops = some ops → Framework.Adds ops.remove

namespace Driver.Adds

variable {driver : Driver} (h : driver.Adds)

include h

theorem keeps_probe : ∀ op, driver.probeOp = some op → Keeps op := by
  intro op hop
  rcases Option.map_eq_some_iff.mp hop with ⟨ops, hops, rfl⟩
  exact adds_keeps (h.probe ops hops)

theorem keeps_quiesce : ∀ op, driver.quiesceOp = some op → Keeps op := by
  intro op hop
  rcases Option.bind_eq_some_iff.mp hop with ⟨ops, hops, hop⟩
  exact adds_keeps (h.quiesce ops hops op hop)

theorem keeps_remove : ∀ op, driver.removeOp = some op → Keeps op := by
  intro op hop
  rcases Option.map_eq_some_iff.mp hop with ⟨ops, hops, rfl⟩
  exact adds_keeps (h.remove ops hops)

end Driver.Adds

/-! ### The operations as a system -/

/-- A call of one operation, with any drivers. -/
inductive Op where
  | discover
  | probe (driver : Driver)
  | publish
  | suspend (driver : Driver)
  | resume (driver : Driver)
  | quiesce (driver : Driver)
  | remove (driver : Driver)
  | revoke (driver : Driver)
  | hotUnplug (driver : Driver)
  | rebind (oldDriver newDriver : Driver)

namespace Op

/-- The drivers the call is made with. -/
def drivers : Op → List Driver
  | discover | publish => []
  | probe driver | suspend driver | resume driver | quiesce driver | remove driver
  | revoke driver | hotUnplug driver => [driver]
  | rebind oldDriver newDriver => [oldDriver, newDriver]

/-- What the call does to the device. `discover` only reads it. -/
def perform : Op → DeviceM Unit
  | discover => pure ()
  | probe driver => Framework.probe driver
  | publish => Framework.publish
  | suspend driver => Framework.suspend driver
  | resume driver => Framework.resume driver
  | quiesce driver => Framework.quiesce driver
  | remove driver => Framework.remove driver
  | revoke driver => Framework.revoke driver
  | hotUnplug driver => Framework.hotUnplug driver
  | rebind oldDriver newDriver => Framework.rebind oldDriver newDriver

/-- `remove` takes a quiescing device to `Failed`. -/
def fails (driver : Driver) (d : Device) : Bool :=
  decide (d.state = .quiescing) && decide ((Framework.remove driver d).2.state = .failed)

/-- The call makes a `remove` that fails: itself, or after its `quiesce`. -/
def removeFails : Op → Device → Bool
  | remove driver, d => fails driver d
  | hotUnplug driver, d | rebind driver _, d =>
    match Framework.quiesce driver d with
    | (.ok _, d') => fails driver d'
    | (.error _, _) => false
  | _, _ => false

end Op

/-- A device, the bus it is on, and whether it has stayed as a failed `remove`
    left it. -/
structure World where
  bus : Bus
  device : Device
  removeFailed : Bool

def step (w : World) (op : Op) : World :=
  let device := (op.perform w.device).2
  { bus := match op with
      | .discover => (discover w.device w.bus).2
      | _ => w.bus
    device
    removeFailed := op.removeFails w.device || (w.removeFailed && decide (device = w.device)) }

def DeviceState.resting : DeviceState → Bool
  | deferred | unsupported | busy | removed => true
  | _ => false

def DeviceState.inUse : DeviceState → Bool
  | ready | suspended | quiescing => true
  | _ => false

/-- What the state of a device says about it. -/
structure Lifecycle (w : World) : Prop where
  resting : w.device.state.resting = true →
    w.device.published = false ∧ w.device.driver = none ∧ w.device.resources = []
  inUse : w.device.state.inUse = true → w.device.driver ≠ none
  published : w.device.published = true →
    w.device.state.inUse = true ∨ w.device.state = .failed ∧ w.removeFailed = true

/-- The callbacks only add resources or fail, and no `probe` is made of a device
    that has failed and is still bound. -/
def Fresh (w : World) (op : Op) : Prop :=
  (∀ driver ∈ op.drivers, driver.Adds) ∧
    ∀ driver, op = .probe driver → w.device.state = .failed → w.device.driver = none

/-! ### What one operation does -/

/-- Nothing of a driver on the device. -/
structure Free (d : Device) : Prop where
  unpublished : d.published = false
  unbound : d.driver = none

/-- What holds of a device between two operations. -/
structure Kept (w : World) : Prop where
  settled : w.device.state ≠ .probing
  used : w.device.state.inUse = true → w.device.driver ≠ none
  free : w.device.state.inUse = false →
    Free w.device ∨ w.device.state = .failed ∧ w.removeFailed = true ∧ w.device.driver ≠ none
  empty : w.device.state.resting = true → w.device.resources = []

variable {state : DeviceState}

theorem resting_cases (h : state.resting = true) :
    state.inUse = false ∧ state ≠ .failed ∧ state ≠ .probing := by
  cases state with
  | deferred | unsupported | busy | removed => exact ⟨rfl, nofun, nofun⟩
  | _ => exact nomatch h

theorem releases_cases (h : state.releases = true) : state.inUse = false ∧ state ≠ .probing := by
  cases state with
  | deferred | unsupported | busy | removed | failed => exact ⟨rfl, nofun⟩
  | _ => exact nomatch h

variable {w : World}

theorem Kept.lifecycle (h : Kept w) : Lifecycle w where
  resting := by
    intro hrest
    rcases resting_cases hrest with ⟨hidle, hfailed, -⟩
    rcases h.free hidle with hfree | ⟨hs, -⟩
    · exact ⟨hfree.unpublished, hfree.unbound, h.empty hrest⟩
    · exact absurd hs hfailed
  inUse := h.used
  published := by
    intro hpublished
    cases huse : w.device.state.inUse with
    | true => exact .inl rfl
    | false =>
      rcases h.free huse with hfree | ⟨hs, hremove, -⟩
      · exact absurd hpublished (by rw [hfree.unpublished]; exact nofun)
      · exact .inr ⟨hs, hremove⟩

/-- The outcomes of an operation: the device is as it was, in use, withdrawn from
    its driver, failed in a `remove`, or given up by a `probe` that found it
    free. -/
inductive Outcome (d d' : Device) (removeFails : Bool) : Prop
  | same (h : d' = d)
  | used (h : d'.state.inUse = true) (hbound : d'.driver ≠ none)
  | withdrawn (h : Withdrawn d')
  | failed (h : d'.state = .failed) (hremove : removeFails = true) (hbound : d'.driver ≠ none)
  | refused (h : d'.state.releases = true) (hempty : d'.resources = []) (hfree : Free d')

variable {op : Op}

theorem outcome_kept (h : Kept w)
    (ho : Outcome w.device (step w op).device (op.removeFails w.device)) : Kept (step w op) := by
  cases ho with
  | same hsame =>
    have hkeep : w.removeFailed = true → (step w op).removeFailed = true := by
      intro hf
      change (op.removeFails w.device || (w.removeFailed && decide ((step w op).device = w.device))) = true
      rw [decide_eq_true hsame, hf, Bool.and_true, Bool.or_true]
    constructor
    · rw [hsame]
      exact h.settled
    · rw [hsame]
      exact h.used
    · rw [hsame]
      intro huse
      rcases h.free huse with hfree | ⟨hs, hf, hbound⟩
      · exact .inl hfree
      · exact .inr ⟨hs, hkeep hf, hbound⟩
    · rw [hsame]
      exact h.empty
  | used huse hbound =>
    constructor
    · intro hs
      rw [hs] at huse
      exact nomatch huse
    · exact fun _ => hbound
    · intro hidle
      rw [huse] at hidle
      exact nomatch hidle
    · intro hrest
      rw [(resting_cases hrest).1] at huse
      exact nomatch huse
  | withdrawn hw =>
    constructor
    · rw [hw.state]
      exact nofun
    · rw [hw.state]
      exact nofun
    · exact fun _ => .inl ⟨hw.unpublished, hw.unbound⟩
    · exact fun _ => hw.empty
  | failed hs hremove hbound =>
    constructor
    · rw [hs]
      exact nofun
    · exact fun _ => hbound
    · intro _
      refine .inr ⟨hs, ?_, hbound⟩
      change (op.removeFails w.device || _) = true
      rw [hremove, Bool.true_or]
    · rw [hs]
      exact nofun
  | refused hs hempty hfree =>
    constructor
    · exact (releases_cases hs).2
    · intro huse
      rw [(releases_cases hs).1] at huse
      exact nomatch huse
    · exact fun _ => .inl hfree
    · exact fun _ => hempty

/-- Both ends of an operation are an outcome. -/
def Ends (x : DeviceM Unit) (d : Device) (removeFails : Bool) : Prop :=
  wp x (fun _ d' => Outcome d d' removeFails) (fun _ d' => Outcome d d' removeFails) d

variable {removeFails : Bool}

theorem Ends.outcome {x : DeviceM Unit} {d : Device} (h : Ends x d removeFails) :
    Outcome d (x d).2 removeFails :=
  of_wp (P := fun d' => Outcome d d' removeFails) h

variable {driver : Driver}

theorem probe_ends (h : Kept w) (hdriver : driver.Adds)
    (hfresh : w.device.state = .failed → w.device.driver = none) :
    Ends (probe driver) w.device false := by
  apply wp_mono (probe_spec hdriver.keeps_probe w.device)
  · rintro _ d' ⟨-, hs, hbound, -⟩
    exact .used (by rw [hs]; rfl) (by rw [hbound]; exact nofun)
  · rintro _ d' (rfl | ⟨hprobing, hs, hempty, hbinding, hpublished⟩)
    · exact .same rfl
    · have hidle : w.device.state.inUse = false := by
        cases hstate : w.device.state with
        | ready | suspended | quiescing =>
          rw [hstate] at hprobing
          exact nomatch hprobing
        | _ => rfl
      rcases h.free hidle with hfree | ⟨hfailed, -, hbound⟩
      · exact .refused hs hempty
          ⟨hpublished.trans hfree.unpublished, hbinding.trans hfree.unbound⟩
      · exact absurd (hfresh hfailed) hbound

theorem publish_ends (h : Kept w) : Ends publish w.device false := by
  rw [publish, setPublished, Ends, wp_bind]
  apply wp_mono (expect_spec _ _ w.device) _ (fun _ _ h => .same h.1)
  rintro _ d' ⟨rfl, hready⟩
  have hready : w.device.state = .ready := of_decide_eq_true hready
  have huse : w.device.state.inUse = true := by rw [hready]; rfl
  exact .used huse (h.used huse)

theorem switchPower_ends (h : Kept w) {before after : DeviceState}
    {callback : DriverOps → Option DeviceCallback} (hstates : before.permits after = true)
    (hbefore : before.inUse = true) (hafter : after.inUse = true)
    (hkeeps : ∀ ops, driver.ops = some ops → ∀ op, callback ops = some op → Keeps op) :
    Ends (switchPower driver before after callback) w.device false := by
  apply wp_mono (switchPower_spec hstates hkeeps w.device)
  · rintro _ d' ⟨hs, hs', hbinding, -⟩
    exact .used (by rw [hs', hafter]) (by rw [hbinding]; exact h.used (by rw [hs, hbefore]))
  · rintro _ d' (rfl | ⟨hs, hsame⟩)
    · exact .same rfl
    · rcases standing_eq.mp hsame with ⟨hs', hbinding, -⟩
      have huse : w.device.state.inUse = true := by rw [hs, hbefore]
      exact .used (by rw [hs', huse]) (by rw [hbinding]; exact h.used huse)

theorem inUse_of_quiesce {d : Device} (h : d.state = .ready ∨ d.state = .suspended) :
    d.state.inUse = true := by
  rcases h with h | h
  · rw [h]
    rfl
  · rw [h]
    rfl

variable {Q : Unit → Device → Prop}

/-- A `quiesce`, with what is to hold of the device it has quiesced. -/
theorem quiesce_ends (h : Kept w) (hdriver : driver.Adds)
    (hnext : ∀ d, quiesce driver w.device = (.ok (), d) → d.state = .quiescing → d.driver = some
      driver.id → Q () d) :
    wp (quiesce driver) Q (fun _ d' => Outcome w.device d' removeFails) w.device := by
  apply wp_mono (wp_run (quiesce_spec (R := fun d d' => d'.standing = d.standing)
    (fun _ => rfl) hdriver.keeps_quiesce w.device))
  · rintro _ d ⟨hrun, hbound, -, d₁, hsame, rfl⟩
    exact hnext _ hrun rfl ((standing_eq.mp hsame).2.1.trans hbound)
  · rintro _ d ⟨-, rfl | ⟨hs, hsame⟩⟩
    · exact .same rfl
    · rcases standing_eq.mp hsame with ⟨hs', hbinding, -⟩
      have huse := inUse_of_quiesce hs
      exact .used (by rw [hs', huse]) (by rw [hbinding]; exact h.used huse)

/-- A `remove`, with what is to hold of the device it has withdrawn. -/
theorem remove_ends {d₀ d : Device} (hdriver : driver.Adds)
    (hfails : Op.fails driver d = removeFails) (hsame : Outcome d₀ d removeFails)
    (hnext : ∀ d', Withdrawn d' → Q () d') :
    wp (remove driver) Q (fun _ d' => Outcome d₀ d' removeFails) d := by
  apply wp_mono (wp_run (remove_spec hdriver.keeps_remove d))
  · exact fun _ d' h => hnext d' h.2.2.2
  · rintro _ d' ⟨hrun, rfl | ⟨hs, hbound, hs', hbinding, -⟩⟩
    · exact hsame
    · refine .failed hs' ?_ (by rw [hbinding, hbound]; exact nofun)
      rw [← hfails, Op.fails, hrun, decide_eq_true hs, decide_eq_true hs', Bool.and_true]

/-- `quiesce` and `remove` in a row, as `hot_unplug` and `rebind` make them. -/
theorem unplug_ends (h : Kept w) (hdriver : driver.Adds) (hnext : ∀ d', Withdrawn d' → Q () d') :
    wp (quiesce driver) (fun _ d => wp (remove driver) Q
        (fun _ d' => Outcome w.device d' ((Op.hotUnplug driver).removeFails w.device)) d)
      (fun _ d' => Outcome w.device d' ((Op.hotUnplug driver).removeFails w.device)) w.device := by
  apply quiesce_ends h hdriver
  intro d hrun hs hbound
  apply remove_ends hdriver _ _ hnext
  · rw [Op.removeFails, hrun]
  · exact .used (by rw [hs]; rfl) (by rw [hbound]; exact nofun)

theorem op_ends (h : Kept w) (hfresh : Fresh w op) :
    Ends op.perform w.device (op.removeFails w.device) := by
  rcases hfresh with ⟨hadds, hprobe⟩
  cases op with
  | discover => exact .same rfl
  | probe driver =>
    exact probe_ends h (hadds driver mem_cons_self) (hprobe driver rfl)
  | publish => exact publish_ends h
  | suspend driver =>
    have hdriver := hadds driver mem_cons_self
    exact switchPower_ends h rfl rfl rfl
      fun ops hops op hop => adds_keeps (hdriver.suspend ops hops op hop)
  | resume driver =>
    have hdriver := hadds driver mem_cons_self
    exact switchPower_ends h rfl rfl rfl
      fun ops hops op hop => adds_keeps (hdriver.resume ops hops op hop)
  | quiesce driver =>
    apply quiesce_ends h (hadds driver mem_cons_self)
    intro d _ hs hbound
    exact .used (by rw [hs]; rfl) (by rw [hbound]; exact nofun)
  | remove driver =>
    exact remove_ends (hadds driver mem_cons_self) rfl (.same rfl) fun _ hw => .withdrawn hw
  | revoke driver =>
    exact wp_mono (revoke_spec driver w.device) (fun _ _ h => .withdrawn h.2)
      (fun _ _ h => .same h.1)
  | hotUnplug driver =>
    rw [Op.perform, hotUnplug, Ends, wp_bind]
    exact unplug_ends h (hadds driver mem_cons_self) fun _ hw => .withdrawn hw
  | rebind oldDriver newDriver =>
    have hold := hadds oldDriver mem_cons_self
    have hnew := hadds newDriver (mem_cons_of_mem _ mem_cons_self)
    rw [Op.perform, rebind, Ends, wp_bind]
    apply wp_mono (boundTo_spec oldDriver w.device) _ (fun _ _ h => .same h.1)
    rintro _ d' ⟨rfl, -⟩
    simp
    apply unplug_ends h hold
    intro d hw
    apply wp_mono (probe_spec hnew.keeps_probe d)
    · rintro _ d' ⟨-, hs, hbound, -⟩
      exact .used (by rw [hs]; rfl) (by rw [hbound]; exact nofun)
    · rintro _ d' (rfl | ⟨-, hs, hempty, hbinding, hpublished⟩)
      · exact .withdrawn hw
      · exact .refused hs hempty
          ⟨hpublished.trans hw.unpublished, hbinding.trans hw.unbound⟩

theorem step_kept (h : Kept w) (hfresh : Fresh w op) : Kept (step w op) :=
  outcome_kept h (op_ends h hfresh).outcome

/-! ### The result -/

/-- A device that has just been made, on its bus. -/
def World.new (bus : Bus) (id : DeviceId) (on : BusId) (busKind : BusKind) (class_ : Class) :
    World :=
  { bus, device := Device.new id on busKind class_, removeFailed := false }

/-- As long as no failed device that is still bound is probed, its state says of a
    device what it should, after every operation. -/
theorem device_lifecycle (bus : Bus) (id : DeviceId) (on : BusId) (busKind : BusKind) (class_ : Class)
    (ops : List Op) (hops : Obeys step Fresh (World.new bus id on busKind class_) ops) (k : Nat) :
    Lifecycle (run step (World.new bus id on busKind class_) (ops.take k)) := by
  have hstart : Kept (World.new bus id on busKind class_) :=
    ⟨nofun, nofun, fun _ => .inl ⟨rfl, rfl⟩, nofun⟩
  have hkept := run_invariant step Fresh Kept (fun _ _ h hfresh => step_kept h hfresh)
    (ops.take k) _ hstart (obeys_take step Fresh _ ops k hops)
  exact hkept.lifecycle

/-- A driver whose callbacks do nothing, except that `remove` may fail. -/
def plainDriver (removes : DeviceCallback) : Driver :=
  { id := 1, class_ := .block, bus := .virtio,
    ops := some { probe := pure (), suspend := none, resume := none, quiesce := none,
                  remove := removes } }

/-- A device that is probed, published and taken away again by a driver that does
    not let go of it. -/
def failing : List Op :=
  [.probe (plainDriver (pure ())), .publish, .quiesce (plainDriver (pure ())),
    .remove (plainDriver (fail .removeFailed))]

theorem plainDriver_adds (removes : DeviceCallback) (h : Adds removes) :
    (plainDriver removes).Adds := by
  constructor
  · rintro _ ⟨rfl⟩
    exact fun d => ⟨[], rfl⟩
  · rintro _ ⟨rfl⟩
    exact nofun
  · rintro _ ⟨rfl⟩
    exact nofun
  · rintro _ ⟨rfl⟩
    exact nofun
  · rintro _ ⟨rfl⟩
    exact h

theorem lifecycle_failing :
    let w := World.new (Bus.new 0 .virtio) 7 0 .virtio .block
    Obeys step Fresh w failing ∧ Lifecycle (run step w (failing.take 4)) := by
  have hadds : ∀ removes : DeviceCallback, Adds removes →
      ∀ driver ∈ [plainDriver removes], driver.Adds := by
    intro removes hremoves driver hmem
    rw [mem_singleton.mp hmem]
    exact plainDriver_adds removes hremoves
  have hpure : Adds (pure ()) := fun d => ⟨[], rfl⟩
  have hobeys : Obeys step Fresh (World.new (Bus.new 0 .virtio) 7 0 .virtio .block) failing :=
    ⟨⟨hadds _ hpure, fun _ _ => nofun⟩, ⟨nofun, nofun⟩, ⟨hadds _ hpure, nofun⟩,
      ⟨hadds _ fun d => ⟨[], rfl⟩, nofun⟩, trivial⟩
  exact ⟨hobeys, device_lifecycle _ _ _ _ _ failing hobeys 4⟩

/-- Probing a device that a failed `remove` has left: with a driver that has no
    callbacks it ends `Unsupported`, still bound and still published. -/
theorem probed_after_failed_remove :
    let ops := failing ++ [.probe { plainDriver (pure ()) with ops := none }]
    let w := run step (World.new (Bus.new 0 .virtio) 7 0 .virtio .block) ops
    (∀ op ∈ ops, ∀ driver ∈ op.drivers, driver.Adds) ∧
      w.device.state = .unsupported ∧ w.device.published = true ∧ w.device.driver = some 1 ∧
      ¬ Lifecycle w := by
  intro ops w
  refine ⟨?_, rfl, rfl, rfl, fun h => nomatch (h.resting rfl).1⟩
  have hpure := plainDriver_adds (pure ()) fun d => ⟨[], rfl⟩
  have hfail := plainDriver_adds (fail .removeFailed) fun d => ⟨[], rfl⟩
  intro op hop driver hdriver
  simp only [ops, failing, cons_append, nil_append, mem_cons, not_mem_nil,
    or_false] at hop
  rcases hop with rfl | rfl | rfl | rfl | rfl
  · exact (mem_singleton.mp hdriver) ▸ hpure
  · exact nomatch hdriver
  · exact (mem_singleton.mp hdriver) ▸ hpure
  · exact (mem_singleton.mp hdriver) ▸ hfail
  · rw [mem_singleton.mp hdriver]
    exact ⟨nofun, nofun, nofun, nofun, nofun⟩

end Framework

end Norx
