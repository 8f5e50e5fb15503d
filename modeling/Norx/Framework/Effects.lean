import Norx.Framework.Device

/-!
# What the Framework Does to a Device

One specification for each operation, in terms of what a later result needs: the
state, the binding and the publication of the device, which is its standing, and
whether it still holds resources. A callback is only known by a relation it
keeps between the device before and after it, so that the same specifications
serve callbacks that are known to do more or less.

`remove` and `revoke` end in a device that is withdrawn: removed, unpublished,
bound to nothing and empty. A `remove` whose callback fails ends in a failed
device that is still bound and still published, and that is the only way to
one.

## Main definitions

* `Driver.probeOp`, `Driver.quiesceOp`, `Driver.removeOp`: The callbacks of a driver
  that may have none.

## Theorems

* `transition_spec`, `switchPower_spec`, `quiesce_spec`, `remove_spec`, `revoke_spec`,
  `probe_spec`: The operations.
-/

namespace Norx

namespace Framework

open Fallible

/-- The state of the device, what it is bound to and whether it is published. -/
def Device.standing (d : Device) : DeviceState × Option DriverId × Bool :=
  (d.state, d.driver, d.published)

variable {d : Device}

theorem standing_eq {d' : Device} : d'.standing = d.standing ↔
    d'.state = d.state ∧ d'.driver = d.driver ∧ d'.published = d.published := by
  simp [Device.standing]

/-- Every call of the callback keeps the relation, whether it fails or not. -/
def Holds (R : Device → Device → Prop) (callback : DeviceCallback) : Prop :=
  ∀ d, R d (callback d).2

variable {R : Device → Device → Prop}

theorem Holds.wp {callback : DeviceCallback} (h : Holds R callback) (d : Device) :
    wp callback (fun _ d' => R d d') (fun _ d' => R d d') d := by
  have hd := h d
  unfold Fallible.wp
  rcases hrun : callback d with ⟨_ | a, d'⟩
  · rw [hrun] at hd
    exact hd
  · rw [hrun] at hd
    exact hd

/-- The callback leaves the standing of every device alone. -/
abbrev Keeps (callback : DeviceCallback) : Prop :=
  Holds (fun d d' => d'.standing = d.standing) callback

def Driver.probeOp (driver : Driver) : Option DeviceCallback := driver.ops.map (·.probe)
def Driver.quiesceOp (driver : Driver) : Option DeviceCallback := driver.ops.bind (·.quiesce)
def Driver.removeOp (driver : Driver) : Option DeviceCallback := driver.ops.map (·.remove)

/-- Nothing of a driver is left on the device. -/
structure Withdrawn (d : Device) : Prop where
  state : d.state = .removed
  unpublished : d.published = false
  unbound : d.driver = none
  empty : d.resources = []

/-! ### Devices -/

theorem expect_spec (expected : DeviceState) (allowed : DeviceState → Bool) (d : Device) :
    wp (expect expected allowed) (fun _ d' => d' = d ∧ allowed d.state = true)
      (fun _ d' => d' = d ∧ allowed d.state = false) d := by
  simp only [expect, wp_bind, wp_read, wp_ite, wp_fail, wp_pure, true_and]
  exact ⟨fun h => h, fun h => eq_true_of_ne_false h⟩

theorem transition_spec (next : DeviceState) (d : Device) :
    wp (transition next) (fun _ d' => d' = { d with state := next } ∧ d.state.permits next = true)
      (fun _ d' => d' = d ∧ d.state.permits next = false) d := by
  rw [transition, wp_bind]
  apply wp_mono (expect_spec next _ d)
  · rintro _ d' ⟨rfl, hpermits⟩
    exact ⟨rfl, hpermits⟩
  · exact fun _ _ h => h

theorem boundTo_spec (driver : Driver) (d : Device) :
    wp (boundTo driver) (fun _ d' => d' = d ∧ d.driver = some driver.id)
      (fun _ d' => d' = d ∧ d.driver ≠ some driver.id) d := by
  simp only [boundTo, wp_bind, wp_read, wp_ite, wp_fail, wp_pure, true_and, not_not]
  exact ⟨fun h => h, fun h => h⟩

variable {E : DriverError → Device → Prop} {Q : Unit → Device → Prop}

theorem wp_transition {next : DeviceState} (h : d.state.permits next = true) :
    wp (transition next) Q E d ↔ Q () { d with state := next } := by
  simp [transition, expect, h]

theorem wp_releaseResources (h : d.state.releases = true) :
    wp releaseResources Q E d ↔ Q () { d with resources := [] } := by
  simp [releaseResources, expect, h]

theorem bindDriver_spec (driver : DriverId) (d : Device) :
    wp (bindDriver driver) (fun _ d' => d' = { d with driver := some driver } ∧ d.driver = none)
      (fun _ d' => d' = d) d := by
  rw [bindDriver, wp_bind, wp_read, wp_ite]
  refine ⟨fun _ => rfl, fun hfree => ?_⟩
  rw [wp_bind]
  apply wp_mono (expect_spec _ _ d) _ (fun _ _ h => h.1)
  rintro _ d' ⟨rfl, -⟩
  exact ⟨rfl, Option.not_isSome_iff_eq_none.mp hfree⟩

theorem wp_letGo (hbound : d.driver ≠ none) :
    wp letGo Q E d ↔ Q () { d with driver := none, published := false } := by
  obtain ⟨driver, hdriver⟩ := Option.ne_none_iff_exists'.mp hbound
  cases hpublished : d.published with
  | false =>
    simp [letGo, unbindDriver, hpublished, hdriver]
  | true =>
    simp [letGo, unpublish, unbindDriver, hpublished, hdriver]

/-! ### The operations -/

variable {driver : Driver}

theorem switchPower_spec {before after : DeviceState} {callback : DriverOps → Option DeviceCallback}
    (hstates : before.permits after = true)
    (hkeeps : ∀ ops, driver.ops = some ops → ∀ op, callback ops = some op → Keeps op) (d : Device) :
    wp (switchPower driver before after callback)
      (fun _ d' => d.state = before ∧ d'.state = after ∧ d'.driver = d.driver ∧
        d'.published = d.published)
      (fun _ d' => d' = d ∨ d.state = before ∧ d'.standing = d.standing) d := by
  rw [switchPower, wp_bind]
  apply wp_mono (boundTo_spec driver d) _ (fun _ _ h => .inl h.1)
  rintro _ d' ⟨rfl, -⟩
  rw [wp_bind]
  apply wp_mono (expect_spec before _ d') _ (fun _ _ h => .inl h.1)
  rintro _ d ⟨rfl, hstate⟩
  have hstate : d.state = before := of_decide_eq_true hstate
  simp only [wp_bind, wp_lookup]
  refine ⟨fun ops hops => ⟨fun op hop => ?_, fun _ => .inl trivial⟩, fun _ => .inl trivial⟩
  apply wp_mono ((hkeeps ops hops op hop).wp d)
  · intro _ d₁ hsame
    rcases standing_eq.mp hsame with ⟨hs, hdriver, hpublished⟩
    apply wp_mono (transition_spec after d₁)
    · rintro _ d' ⟨rfl, -⟩
      exact ⟨hstate, rfl, hdriver, hpublished⟩
    · rintro _ d' ⟨-, hrefused⟩
      rw [hs, hstate, hstates] at hrefused
      cases hrefused
  · exact fun _ _ hsame => .inr ⟨hstate, hsame⟩

theorem quiesce_spec (hrefl : ∀ d, R d d) (hkeeps : ∀ op, driver.quiesceOp = some op → Holds R op)
    (d : Device) :
    wp (quiesce driver)
      (fun _ d' => d.driver = some driver.id ∧ (d.state = .ready ∨ d.state = .suspended) ∧
        ∃ d₁, R d d₁ ∧ d' = { d₁ with state := .quiescing })
      (fun _ d' => d' = d ∨ (d.state = .ready ∨ d.state = .suspended) ∧ R d d') d := by
  rw [quiesce, wp_bind]
  apply wp_mono (boundTo_spec driver d) _ (fun _ _ h => .inl h.1)
  rintro _ d' ⟨rfl, hbound⟩
  rw [wp_bind]
  apply wp_mono (expect_spec _ _ d') _ (fun _ _ h => .inl h.1)
  rintro _ d ⟨rfl, hstate⟩
  have hstate : d.state = .ready ∨ d.state = .suspended := of_decide_eq_true hstate
  simp only [wp_bind, wp_lookup]
  refine ⟨fun ops hops => ?_, fun _ => .inl trivial⟩
  have htail : ∀ d₁, R d d₁ → wp (transition .quiescing)
      (fun _ d' => d.driver = some driver.id ∧ (d.state = .ready ∨ d.state = .suspended) ∧
        ∃ d₁, R d d₁ ∧ d' = { d₁ with state := .quiescing })
      (fun _ d' => d' = d ∨ (d.state = .ready ∨ d.state = .suspended) ∧ R d d') d₁ := by
    intro d₁ hrel
    apply wp_mono (transition_spec .quiescing d₁)
    · rintro _ d' ⟨rfl, -⟩
      exact ⟨hbound, hstate, d₁, hrel, rfl⟩
    · rintro _ d' ⟨rfl, -⟩
      exact .inr ⟨hstate, hrel⟩
  cases hop : ops.quiesce with
  | none => exact htail d (hrefl d)
  | some op =>
    have hholds := hkeeps op (by rw [Driver.quiesceOp, hops, Option.bind_some, hop])
    exact wp_mono (hholds.wp d) (fun _ d₁ hrel => htail d₁ hrel)
      (fun _ _ hrel => .inr ⟨hstate, hrel⟩)

theorem remove_spec (hkeeps : ∀ op, driver.removeOp = some op → Keeps op) (d : Device) :
    wp (remove driver)
      (fun _ d' => d.state = .quiescing ∧ d.driver = some driver.id ∧ Withdrawn d')
      (fun _ d' => d' = d ∨ d.state = .quiescing ∧ d.driver = some driver.id ∧
        d'.state = .failed ∧ d'.driver = d.driver ∧ d'.published = d.published) d := by
  rw [remove, wp_bind]
  apply wp_mono (boundTo_spec driver d) _ (fun _ _ h => .inl h.1)
  rintro _ d' ⟨rfl, hbound⟩
  rw [wp_bind]
  apply wp_mono (expect_spec _ _ d') _ (fun _ _ h => .inl h.1)
  rintro _ d ⟨rfl, hstate⟩
  have hstate : d.state = .quiescing := of_decide_eq_true hstate
  rw [wp_bind, wp_lookup]
  refine ⟨fun ops hops => ?_, fun _ => .inl rfl⟩
  have hholds := hkeeps ops.remove (by rw [Driver.removeOp, hops, Option.map_some])
  rw [wp_bind, wp_attempt]
  apply wp_mono (hholds.wp d)
  · intro _ d₁ hsame
    rcases standing_eq.mp hsame with ⟨hs, hdriver, -⟩
    rw [wp_bind, wp_letGo (by rw [hdriver, hbound]; exact nofun), wp_bind,
      wp_transition (by rw [hs, hstate]; rfl), wp_releaseResources rfl]
    exact ⟨hstate, hbound, rfl, rfl, rfl, rfl⟩
  · intro _ d₁ hsame
    rcases standing_eq.mp hsame with ⟨hs, hdriver, hpublished⟩
    rw [wp_bind, wp_attempt, wp_transition (by rw [hs, hstate]; rfl)]
    exact .inr ⟨hstate, hbound, rfl, hdriver, hpublished⟩

theorem revoke_spec (driver : Driver) (d : Device) :
    wp (revoke driver)
      (fun _ d' => d.driver = some driver.id ∧ Withdrawn d')
      (fun _ d' => d' = d ∧
        ¬ (d.driver = some driver.id ∧ (d.state = .quiescing ∨ d.state = .failed))) d := by
  rw [revoke, wp_bind]
  apply wp_mono (boundTo_spec driver d) _ (fun _ _ h => ⟨h.1, fun hb => h.2 hb.1⟩)
  rintro _ d' ⟨rfl, hbound⟩
  rw [wp_bind]
  apply wp_mono (expect_spec _ _ d') _
    (fun _ _ h => ⟨h.1, fun hb => of_decide_eq_false h.2 hb.2⟩)
  rintro _ d ⟨rfl, hstate⟩
  have hstate : d.state = .quiescing ∨ d.state = .failed := of_decide_eq_true hstate
  have hremovable : d.state ≠ .removed ∧ d.state.permits .removed = true := by
    rcases hstate with hs | hs
    · rw [hs]
      exact ⟨nofun, rfl⟩
    · rw [hs]
      exact ⟨nofun, rfl⟩
  rw [wp_bind, wp_letGo (by rw [hbound]; exact nofun), wp_bind, wp_read, wp_ite]
  refine ⟨fun _ => ?_, fun h => absurd hremovable.1 h⟩
  rw [wp_bind, wp_transition (by exact hremovable.2)]
  exact ⟨hbound, rfl, rfl, rfl, rfl⟩

theorem probeState_of_probing (error : DriverError) :
    DeviceState.probing.permits error.probeState = true ∧ error.probeState.releases = true := by
  cases error with
  | _ => exact ⟨rfl, rfl⟩

theorem probe_spec (hkeeps : ∀ op, driver.probeOp = some op → Keeps op) (d : Device) :
    wp (probe driver)
      (fun _ d' => d.driver = none ∧ d'.state = .ready ∧ d'.driver = some driver.id ∧
        d'.published = d.published)
      (fun _ d' => d' = d ∨ d.state.permits .probing = true ∧ d'.state.releases = true ∧
        d'.resources = [] ∧ d'.driver = d.driver ∧ d'.published = d.published) d := by
  rw [probe, wp_bind, wp_read, wp_ite]
  refine ⟨fun _ => .inl rfl, fun _ => ?_⟩
  rw [wp_bind]
  apply wp_mono (transition_spec .probing d) _ (fun _ _ h => .inl h.1)
  rintro _ d₁ ⟨rfl, hprobing⟩
  cases hops : driver.ops with
  | none =>
    rw [wp_bind, wp_succeeds, wp_transition rfl, wp_ite]
    refine ⟨nofun, fun _ => ?_⟩
    exact .inr ⟨hprobing, rfl, rfl, rfl, rfl⟩
  | some ops =>
    have hholds := hkeeps ops.probe (by rw [Driver.probeOp, hops, Option.map_some])
    rw [wp_bind, wp_attempt]
    apply wp_mono (hholds.wp _)
    · intro _ d₂ hsame
      rcases standing_eq.mp hsame with ⟨hs, hdriver, hpublished⟩
      rw [wp_bind, wp_attempt]
      apply wp_mono (bindDriver_spec driver.id d₂)
      · rintro _ d₃ ⟨rfl, hfree⟩
        rw [wp_transition (by rw [hs]; rfl)]
        exact ⟨hdriver.symm.trans hfree, rfl, rfl, hpublished⟩
      · rintro error d₃ rfl
        rw [wp_bind, wp_attempt, wp_transition (by rw [hs]; rfl), wp_bind, wp_attempt,
          wp_releaseResources rfl]
        exact .inr ⟨hprobing, rfl, rfl, hdriver, hpublished⟩
    · intro error d₂ hsame
      rcases standing_eq.mp hsame with ⟨hs, hdriver, hpublished⟩
      have hstate := probeState_of_probing error
      rw [wp_bind, wp_transition (by rw [hs]; exact hstate.1), wp_bind, wp_attempt,
        wp_releaseResources hstate.2]
      exact .inr ⟨hprobing, hstate.2, rfl, hdriver, hpublished⟩

end Framework

end Norx
