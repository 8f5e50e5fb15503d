import Norx.Lib.Run
import Norx.Service.Effects

/-!
# What the Supervisor Keeps

Over any run of calls, with any devices, drivers and process tables: an endpoint is
active exactly while its service runs, a device has at most one record, and a
record is restarted at most three times. A registration is therefore started at
most four times, and before each of those starts a `register` or `restart` of its
own has found a live user thread that is not init. The last two are about the
history of a run, that is about its events.

## Theorems

* `supervisor_invariants`: The result.
-/

namespace Norx

namespace Service

open Framework Arena List

/-! ### Histories -/

namespace Event

/-- The event is a registration in the slot. -/
def registers (slot : Nat) : Event → Bool
  | registered i .. => i = slot
  | _ => false

/-- The event is a start of the slot's service. -/
def starts (slot : Nat) : Event → Bool
  | started i => i = slot
  | _ => false

/-- The event is a registration or restart of the slot's service that found a
    live thread. -/
def Finds (slot : Nat) : Event → Prop
  | registered i processes process thread => i = slot ∧ Live processes process thread
  | restarted i processes process thread => i = slot ∧ Live processes process thread
  | _ => False

end Event

/-- How often the slot's service was started since it was last registered. -/
def since (slot : Nat) (events : List Event) : Nat :=
  events.foldl (fun n e => if e.registers slot then 0 else if e.starts slot then n + 1 else n) 0

/-- A live thread was found for the slot's service, and the service has not been
    started or registered anew since. -/
def Found (slot : Nat) (events : List Event) : Prop :=
  ∃ early e late, events = early ++ e :: late ∧ e.Finds slot ∧
    ∀ e' ∈ late, e'.starts slot = false ∧ e'.registers slot = false

theorem since_append (slot : Nat) (events : List Event) (e : Event) :
    since slot (events ++ [e])
      = if e.registers slot then 0 else if e.starts slot then since slot events + 1
        else since slot events := by
  rw [since, foldl_append, foldl_cons]
  rfl

/-- Within one registration, the starts are among those counted. -/
theorem count_le_since (slot : Nat) (before life : List Event)
    (h : ∀ e ∈ life, e.registers slot = false) :
    life.countP (Event.starts slot) ≤ since slot (before ++ life) := by
  induction life using List.reverseRecOn with
  | nil => exact Nat.zero_le _
  | append_singleton life e ih =>
    have hle := ih fun e' he' => h e' (mem_append_left _ he')
    have he := h e (mem_append_right _ mem_cons_self)
    rw [← append_assoc, since_append, he, if_neg Bool.false_ne_true, countP_append,
      countP_singleton]
    split
    · omega
    · omega

variable {slot : Nat} {events : List Event} {e : Event}

theorem found_append (h : Found slot events) (he : e.starts slot = false ∧ e.registers slot = false) :
    Found slot (events ++ [e]) := by
  rcases h with ⟨early, first, late, rfl, hfinds, hlate⟩
  refine ⟨early, first, late ++ [e], by rw [append_assoc, cons_append], hfinds, ?_⟩
  intro e' he'
  rcases mem_append.mp he' with he' | he'
  · exact hlate e' he'
  · rw [mem_singleton.mp he']
    exact he

/-- What the history of a run says about one record. -/
structure Known (events : List Event) (slot : Nat) (record : ServiceRecord) : Prop where
  active : record.endpointActive = true ↔ record.state = .running
  restarts : record.restarts ≤ maxRestarts
  waiting : record.state = .registered →
    since slot events ≤ record.restarts.toNat ∧ Found slot events
  started : since slot events ≤ record.restarts.toNat + 1

/-- The history of a run and the table it leads to. -/
structure History (events : List Event) (s : Supervisor) : Prop where
  known : ∀ slot record, s.records.get slot = some record → Known events slot record
  bounded : ∀ slot, since slot events ≤ 4
  single : ∀ i j r r', s.records.get i = some r → s.records.get j = some r' →
    r.device = r'.device → i = j
  found : ∀ slot before after, events = before ++ .started slot :: after → Found slot before

/-- The event is neither a start nor a registration of the slot. -/
def Event.Apart (slot : Nat) (e : Event) : Prop := e.starts slot = false ∧ e.registers slot = false

theorem since_apart (he : e.Apart slot) : since slot (events ++ [e]) = since slot events := by
  rw [since_append, he.1, he.2, if_neg Bool.false_ne_true, if_neg Bool.false_ne_true]

variable {record : ServiceRecord}

theorem Known.append (h : Known events slot record) (he : e.Apart slot) :
    Known (events ++ [e]) slot record where
  active := h.active
  restarts := h.restarts
  waiting hs := by
    rw [since_apart he]
    exact ⟨(h.waiting hs).1, found_append (h.waiting hs).2 he⟩
  started := by
    rw [since_apart he]
    exact h.started

variable {s : Supervisor}

/-- The part of a history that is about starts, with one more event. -/
theorem found_step (h : History events s) (he : ∀ slot, e = .started slot → Found slot events) :
    ∀ slot before after, events ++ [e] = before ++ .started slot :: after → Found slot before := by
  intro slot before after heq
  rcases eq_nil_or_concat after with rfl | ⟨after', last, rfl⟩
  · obtain ⟨rfl, hlast⟩ := append_inj' heq rfl
    exact he slot (List.cons.inj hlast).1
  · rw [concat_eq_append, ← cons_append, ← append_assoc] at heq
    obtain ⟨heq, -⟩ := append_inj' heq rfl
    exact h.found slot before after' heq

/-- A record for a device that no other slot has. -/
theorem single_put
    (hsingle : ∀ i j r r', s.records.get i = some r → s.records.get j = some r' → r.device =
      r'.device → i = j)
    (hdevice : ∀ i r, i ≠ slot → s.records.get i = some r → r.device ≠ record.device) :
    ∀ i j r r', (s.put slot (some record)).records.get i = some r →
      (s.put slot (some record)).records.get j = some r' → r.device = r'.device → i = j := by
  intro i j r r' hr hr' hsame
  rcases get_set_some hr with ⟨rfl, ⟨⟩⟩ | ⟨hi, hold⟩
  · rcases get_set_some hr' with ⟨rfl, -⟩ | ⟨hj, hold'⟩
    · rfl
    · exact absurd hsame.symm (hdevice j r' hj hold')
  · rcases get_set_some hr' with ⟨rfl, ⟨⟩⟩ | ⟨-, hold'⟩
    · exact absurd hsame (hdevice i r hi hold)
    · exact hsingle i j r r' hold hold' hsame

/-- A record for a device that no other slot has, with an event that is about no
    other slot. -/
theorem history_put (h : History events s)
    (hdevice : ∀ i r, i ≠ slot → s.records.get i = some r → r.device ≠ record.device)
    (hapart : ∀ i, i ≠ slot → e.Apart i) (hknown : Known (events ++ [e]) slot record)
    (hbounded : since slot (events ++ [e]) ≤ 4) (hfound : ∀ i, e = .started i → Found i events) :
    History (events ++ [e]) (s.put slot (some record)) where
  known i r hr := by
    rcases get_set_some hr with ⟨rfl, ⟨⟩⟩ | ⟨hi, hr⟩
    · exact hknown
    · exact (h.known i r hr).append (hapart i hi)
  bounded i := by
    by_cases hi : i = slot
    · rw [hi]
      exact hbounded
    · rw [since_apart (hapart i hi)]
      exact h.bounded i
  single := single_put h.single hdevice
  found := found_step h hfound

theorem saturatingSucc_spec {count : UInt8} (h : count < maxRestarts) :
    (saturatingSucc count).toNat = count.toNat + 1 ∧ saturatingSucc count ≤ maxRestarts := by
  have hlt : count.toNat < 3 := UInt8.lt_iff_toNat_lt.mp h
  have hne : count ≠ 255 := by
    rintro rfl
    exact absurd hlt (by decide)
  have hsucc : (saturatingSucc count).toNat = count.toNat + 1 := by
    rw [saturatingSucc, if_neg hne]
    exact Nat.mod_eq_of_lt (by change count.toNat + 1 < 256; omega)
  refine ⟨hsucc, UInt8.le_iff_toNat_le.mpr ?_⟩
  change _ ≤ 3
  omega

theorem history_step {driver : Driver} {s s' : Scene} (h : History events s.supervisor)
    (hc : Change driver s s' e) : History (events ++ [e]) s'.supervisor := by
  have hother : ∀ i, Event.other.Apart i := fun _ => ⟨rfl, rfl⟩
  have hsame : History (events ++ [.other]) s.supervisor :=
    ⟨fun i r hr => (h.known i r hr).append (hother i),
      fun i => (since_apart (hother i)).trans_le (h.bounded i), h.single, found_step h nofun⟩
  have halone : ∀ slot record, s.supervisor.records.get slot = some record → ∀ i r, i ≠ slot →
      s.supervisor.records.get i = some r → r.device ≠ record.device :=
    fun slot record hget i r hi hr hsame => hi (h.single i slot r record hr hget hsame)
  cases hc with
  | same hs | notRestarted _ _ _ hs =>
    rw [hs]
    exact hsame
  | @registered slot record hlt hfree hdevice hstate hactive hrestarts hlive hs =>
    rw [hs]
    have hapart : ∀ i, i ≠ slot →
        (Event.registered slot s.processes record.process record.thread).Apart i :=
      fun i hi => ⟨rfl, decide_eq_false (Ne.symm hi)⟩
    have hzero : since slot
        (events ++ [.registered slot s.processes record.process record.thread]) = 0 := by
      rw [since_append, Event.registers, decide_eq_true rfl, if_pos rfl]
    refine history_put h (fun i r _ => hdevice i r) hapart ?_ (by omega) nofun
    refine ⟨?_, by rw [hrestarts]; decide, fun _ => ⟨by omega, ?_⟩, by omega⟩
    · rw [hactive, hstate]
      exact ⟨nofun, nofun⟩
    · exact ⟨events, _, [], rfl, ⟨rfl, hlive⟩, nofun⟩
  | @started slot record hget hstate hs =>
    rw [hs]
    have hold := h.known slot record hget
    rcases hold.waiting hstate with ⟨hsince, hfound⟩
    have hmax : record.restarts.toNat ≤ 3 := UInt8.le_iff_toNat_le.mp hold.restarts
    have hone : since slot (events ++ [.started slot]) = since slot events + 1 := by
      simp [since_append, Event.registers, Event.starts]
    refine history_put h (halone slot record hget) (fun i hi => ⟨decide_eq_false (Ne.symm hi), rfl⟩) ?_ (by omega)
      ?_
    · refine ⟨⟨fun _ => rfl, fun _ => rfl⟩, hold.restarts, nofun, ?_⟩
      rw [hone]
      exact Nat.succ_le_succ hsince
    · rintro i ⟨rfl⟩
      exact hfound
  | @halted slot record state hget _ _ hstate _ hs =>
    rw [hs]
    have hold := h.known slot record hget
    refine history_put h (halone slot record hget) (fun i _ => hother i) ?_
      ((since_apart (hother slot)).trans_le (h.bounded slot)) nofun
    refine ⟨⟨nofun, fun hs => absurd hs hstate.2⟩, hold.restarts,
      fun hs => absurd hs hstate.1, ?_⟩
    rw [since_apart (hother slot)]
    exact hold.started
  | @restarted slot record process thread hget _ _ hrestarts hlive hs =>
    rw [hs]
    have hold := h.known slot record hget
    have hapart : ∀ i, (Event.restarted slot s.processes process thread).Apart i :=
      fun _ => ⟨rfl, rfl⟩
    rcases saturatingSucc_spec hrestarts with ⟨hsucc, hmax⟩
    refine history_put h (halone slot record hget) (fun i _ => hapart i) ?_
      ((since_apart (hapart slot)).trans_le (h.bounded slot)) nofun
    refine ⟨⟨nofun, nofun⟩, hmax, fun _ => ⟨?_, events, _, [], rfl, ⟨rfl, hlive⟩, nofun⟩, ?_⟩
    · rw [since_apart (hapart slot), hsucc]
      exact hold.started
    · rw [since_apart (hapart slot), hsucc]
      exact hold.started.trans (Nat.le_succ _)
  | removed slot generations _ hs =>
    rw [hs]
    have hback : ∀ (i : Nat) r, (s.supervisor.put slot none).records.get i = some r →
        s.supervisor.records.get i = some r := by
      intro i r hr
      rcases get_set_some hr with ⟨-, ⟨⟩⟩ | ⟨-, hr⟩
      exact hr
    exact ⟨fun i r hr => (h.known i r (hback i r hr)).append (hother i),
      fun i => (since_apart (hother i)).trans_le (h.bounded i),
      fun i j r r' hr hr' => h.single i j r r' (hback i r hr) (hback j r' hr'),
      found_step h nofun⟩

theorem history_new : History [] Supervisor.new where
  known slot record h := by
    exact nomatch (Slots.get_replicate_default _).symm.trans h
  bounded _ := Nat.zero_le _
  single i j r r' h := by
    exact nomatch (Slots.get_replicate_default _).symm.trans h
  found slot before after h := by
    exact absurd h (by simp)

/-- After any run of calls, and so in every state reached: an endpoint is active
    exactly if its service runs, a device has one record, and a record has at most
    three restarts. In the history of the run, what lies within one registration of a
    slot has at most four starts of it, and before each start a registration or
    restart found a live thread, with no other start in between. -/
theorem supervisor_invariants (requests : List Request) :
    let s := run step Supervisor.new requests
    let events := trace step event Supervisor.new requests
    (∀ (slot : Nat) record, s.records.get slot = some record →
      (record.endpointActive = true ↔ record.state = .running)) ∧
    (∀ (i j : Nat) r r', s.records.get i = some r → s.records.get j = some r' →
      r.device = r'.device → i = j) ∧
    (∀ (slot : Nat) record, s.records.get slot = some record → record.restarts ≤ 3) ∧
    (∀ (slot : Nat) before life after, events = before ++ life ++ after →
      (∀ e ∈ life, e.registers slot = false) → life.countP (Event.starts slot) ≤ 4) ∧
    (∀ (slot : Nat) before after, events = before ++ .started slot :: after →
      ∃ early e late, before = early ++ e :: late ∧ e.Finds slot ∧
        ∀ e' ∈ late, e'.starts slot = false ∧ e'.registers slot = false) := by
  have hrun : ∀ requests, History (trace step event Supervisor.new requests)
      (run step Supervisor.new requests) := by
    intro requests
    have h := run_history step (fun _ _ => True) event History
      (fun _ s request hs _ => history_step hs (step_change s request)) requests [] _ history_new
      (obeys_of_forall step _ (fun _ _ => trivial) _ _)
    exact h
  have h := hrun requests
  refine ⟨fun i r hr => (h.known i r hr).active, h.single, fun i r hr => (h.known i r hr).restarts,
    ?_, h.found⟩
  intro slot before life after heq hlife
  -- What is within the registration ends where a shorter run does.
  have hshort := trace_take step event Supervisor.new requests (before ++ life).length
  rw [heq, take_left] at hshort
  have hbounded := (hrun (requests.take (before ++ life).length)).bounded slot
  rw [hshort] at hbounded
  exact (count_le_since slot before life hlife).trans hbounded

end Service

end Norx
