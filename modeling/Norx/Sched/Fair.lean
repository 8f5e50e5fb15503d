import Norx.Lib.Run
import Norx.Lib.Word

/-!
# The Scheduler of the Timer

`pick` takes the ready task with the smallest key, the deadline and half the
burst, and `charge` moves a task's deadline on by the time it has run. The timer
charges the current task one tick and picks anew.

A task of the usual weight that has been charged `n` ticks has a key of
`n + n / 4 + n / 2` and its slice. That grows by at least three over any two
ticks, and slices differ by two at most, so a task two ticks ahead of another is
not picked before it.

## Theorems

* `pick_least`: The task picked has the smallest key.
* `picked_behind`: The task picked is at most one tick ahead of any other.
* `ticks_fair`: No task is ever more than two ticks ahead of another.
* `vruntime_near_iff`: How far rounding takes the virtual runtime.
-/

namespace Norx

namespace Sched

open Word List

def maxTasks : Nat := 16

def baseSlice : UInt64 := 4

def interactiveSlice : UInt64 := 2

inductive TaskState where
  | ready
  | sleeping
  | done
  deriving DecidableEq, Repr

structure Task where
  id : Nat
  weight : UInt32
  latency : UInt8
  vruntime : UInt64
  deadline : UInt64
  burst : UInt64
  state : TaskState
  deriving DecidableEq, Repr

def Task.new (id : Nat) (weight : UInt32) (latency : UInt8) : Task :=
  { id, weight, latency, vruntime := 0, deadline := 0, burst := 0, state := .ready }

structure Scheduler where
  tasks : List Task
  clock : UInt64
  deriving DecidableEq, Repr

def Scheduler.new : Scheduler := { tasks := [], clock := 0 }

def sliceFor (task : Task) : UInt64 :=
  max (baseSlice - min task.latency.toUInt64 3) interactiveSlice

def Scheduler.add (s : Scheduler) (task : Task) : Bool × Scheduler :=
  if s.tasks.length = maxTasks ∨ task.weight = 0 then (false, s)
  else
    (true, { s with tasks := s.tasks ++ [{ task with deadline := s.clock + sliceFor task }] })

def Task.key (task : Task) : UInt64 := task.deadline + task.burst / 2

/-- One turn of the loop of `pick`: the best task so far, with its key. -/
def better (best : Option Nat × UInt64) (task : Task) : Option Nat × UInt64 :=
  if task.state ≠ .ready then best
  else if task.key < best.2 then (some task.id, task.key)
  else best

def Scheduler.pick (s : Scheduler) : Option Nat :=
  (s.tasks.foldl better (none, 0xffffffffffffffff)).1

def Task.charge (task : Task) (runtime : UInt64) (slept : Bool) : Task :=
  let weighted := saturatingMul runtime 1024 / task.weight.toUInt64
  let vruntime := saturatingAdd task.vruntime weighted
  let burst := if slept then task.burst / 2 else saturatingAdd task.burst runtime
  { task with vruntime, burst, deadline := vruntime + sliceFor task + burst / 4 }

/-- The loop of `charge`: the first task of that id is charged. -/
def chargeFirst (id : Nat) (runtime : UInt64) (slept : Bool) : List Task → List Task
  | [] => []
  | task :: rest =>
    if task.id ≠ id then task :: chargeFirst id runtime slept rest
    else task.charge runtime slept :: rest

def Scheduler.charge (s : Scheduler) (id : Nat) (runtime : UInt64) (slept : Bool) : Scheduler :=
  if s.tasks.any (·.id = id) then
    { tasks := chargeFirst id runtime slept s.tasks, clock := saturatingAdd s.clock runtime }
  else s

structure Runtime where
  scheduler : Scheduler
  current : Option Nat
  timerTicks : UInt64

def Runtime.onTimerTick (r : Runtime) : Runtime :=
  let scheduler :=
    match r.current with
    | some id => r.scheduler.charge id 1 false
    | none => r.scheduler
  { scheduler, current := scheduler.pick, timerTicks := saturatingAdd r.timerTicks 1 }

/-- The runtime after `n` ticks. -/
def Runtime.after (r : Runtime) : Nat → Runtime
  | 0 => r
  | n + 1 => (r.after n).onTimerTick

/-- How many of the first `n` ticks were charged to a task. -/
def Runtime.charged (r : Runtime) (id : Nat) : Nat → Nat
  | 0 => 0
  | n + 1 => r.charged id n + if (r.after n).current = some id then 1 else 0

/-- Tasks of the usual weight, added to a new scheduler one after the other. -/
def Scheduler.of (tasks : List (Nat × UInt8)) : Scheduler :=
  tasks.foldl (fun s task => (s.add (Task.new task.1 1024 task.2)).2) Scheduler.new

/-- The loop of `pick`, from the best task so far. -/
theorem foldl_better (tasks : List Task) (best : Option Nat × UInt64) :
    (tasks.foldl better best = best ∨
        ∃ t ∈ tasks, tasks.foldl better best = (some t.id, t.key)) ∧
      (tasks.foldl better best).2 ≤ best.2 ∧
      ∀ t ∈ tasks, t.state = .ready → (tasks.foldl better best).2 ≤ t.key := by
  induction tasks generalizing best with
  | nil => simp
  | cons task tasks ih =>
    rcases ih (better best task) with ⟨hfrom, hle, hall⟩
    have hstep : (better best task = best ∨ better best task = (some task.id, task.key)) ∧
        (better best task).2 ≤ best.2 ∧ (task.state = .ready → (better best task).2 ≤ task.key) := by
      unfold better
      split_ifs with hready hkey
      · exact ⟨.inl rfl, UInt64.le_refl _, fun h => absurd h hready⟩
      · exact ⟨.inr rfl, UInt64.le_of_lt hkey, fun _ => UInt64.le_refl _⟩
      · exact ⟨.inl rfl, UInt64.le_refl _, fun _ => UInt64.not_lt.mp hkey⟩
    simp only [foldl_cons, mem_cons, exists_eq_or_imp, forall_eq_or_imp]
    grind

theorem pick_least {s : Scheduler} {id : Nat} (h : s.pick = some id) :
    ∃ t ∈ s.tasks, t.id = id ∧ ∀ t' ∈ s.tasks, t'.state = .ready → t.key ≤ t'.key := by
  rcases foldl_better s.tasks (none, 0xffffffffffffffff) with ⟨hnone | ⟨t, ht, hbest⟩, -, hall⟩
  · simp [Scheduler.pick, hnone] at h
  · refine ⟨t, ht, by simpa [Scheduler.pick, hbest] using h, ?_⟩
    simpa [hbest] using hall

theorem sliceFor_bounds (task : Task) : 2 ≤ (sliceFor task).toNat ∧ (sliceFor task).toNat ≤ 4 := by
  have h : ∀ b : Fin 256, 2 ≤ (max (baseSlice - min (UInt8.ofNat b).toUInt64 3) interactiveSlice).toNat ∧
      (max (baseSlice - min (UInt8.ofNat b).toUInt64 3) interactiveSlice).toNat ≤ 4 := by
    decide +kernel
  simpa [sliceFor] using h ⟨task.latency.toNat, task.latency.toNat_lt⟩

/-- A ready task of the usual weight that has been charged `n` ticks. -/
structure Task.At (task : Task) (n : Nat) : Prop where
  weight : task.weight = 1024
  ready : task.state = .ready
  vruntime : task.vruntime.toNat = n
  burst : task.burst.toNat = n
  deadline : task.deadline.toNat = n + (sliceFor task).toNat + n / 4

variable {task other : Task} {n k : Nat}

theorem Task.At.key_toNat (h : task.At n) (hn : n < 2 ^ 60) :
    task.key.toNat = n + (sliceFor task).toNat + n / 4 + n / 2 := by
  have := sliceFor_bounds task
  rw [Task.key, UInt64.toNat_add, UInt64.toNat_div, h.deadline, h.burst]
  change (_ + n / 2) % 2 ^ 64 = _
  omega

theorem Task.At.charge (h : task.At n) (hn : n < 2 ^ 60) : (task.charge 1 false).At (n + 1) := by
  have := sliceFor_bounds task
  have hone : saturatingMul 1 1024 / task.weight.toUInt64 = 1 := by
    rw [h.weight]
    decide
  have hv : (saturatingAdd task.vruntime 1).toNat = n + 1 := by
    rw [saturatingAdd_toNat, h.vruntime, UInt64.toNat_one]
    omega
  have hb : (saturatingAdd task.burst 1).toNat = n + 1 := by
    rw [saturatingAdd_toNat, h.burst, UInt64.toNat_one]
    omega
  refine ⟨h.weight, h.ready, ?_, hb, ?_⟩
  · simp only [Task.charge, hone]
    exact hv
  · simp only [Task.charge, hone]
    rw [UInt64.toNat_add, UInt64.toNat_add, UInt64.toNat_div, hv]
    change (_ + (saturatingAdd task.burst 1).toNat / 4) % 2 ^ 64 = n + 1 + (sliceFor task).toNat + _
    rw [hb]
    omega

/-- A task with the smallest key is at most one tick ahead. -/
theorem picked_behind (h : task.At n) (ho : other.At k) (hn : n < 2 ^ 60) (hk : k < 2 ^ 60)
    (hle : task.key ≤ other.key) : n ≤ k + 1 := by
  have hslice := sliceFor_bounds task
  have hslice' := sliceFor_bounds other
  rw [UInt64.le_iff_toNat_le, h.key_toNat hn, ho.key_toNat hk] at hle
  omega

/-- Charging one task leaves the others as they were. -/
theorem chargeFirst_at {c : Nat → Nat} {tasks : List Task} {id : Nat}
    (hids : (tasks.map Task.id).Nodup) (h : ∀ t ∈ tasks, t.At (c t.id))
    (hc : ∀ i, c i < 2 ^ 60) :
    (chargeFirst id 1 false tasks).map Task.id = tasks.map Task.id ∧
      ∀ t ∈ chargeFirst id 1 false tasks, t.At (c t.id + if id = t.id then 1 else 0) := by
  induction tasks with
  | nil => simp [chargeFirst]
  | cons task tasks ih =>
    simp only [map_cons, nodup_cons, mem_map, not_exists, not_and] at hids
    have hrest := ih hids.2 fun t ht => h t (mem_cons_of_mem _ ht)
    by_cases hid : task.id = id
    · rw [chargeFirst, if_neg (not_not.mpr hid)]
      refine ⟨rfl, forall_mem_cons.mpr ⟨?_, fun t ht => ?_⟩⟩
      · simpa [Task.charge, hid] using (h task mem_cons_self).charge (hc _)
      · have hne : id ≠ t.id := fun hc => hids.1 t ht (hc ▸ hid.symm)
        simpa [hne] using h t (mem_cons_of_mem _ ht)
    · rw [chargeFirst, if_pos hid]
      refine ⟨congrArg (task.id :: ·) hrest.1, forall_mem_cons.mpr ⟨?_, hrest.2⟩⟩
      simpa [Ne.symm hid] using h task mem_cons_self

/-- After `n` ticks every task has been charged what it was charged, none is
    more than two ticks ahead, and the current task not more than one. -/
structure Runtime.Fair (r : Runtime) (ids : List Nat) (c : Nat → Nat) : Prop where
  named : r.scheduler.tasks.map Task.id = ids
  at_ : ∀ t ∈ r.scheduler.tasks, t.At (c t.id)
  near : ∀ i ∈ ids, ∀ j ∈ ids, c i ≤ c j + 2
  current : ∀ i ∈ ids, r.current = some i → ∀ j ∈ ids, c i ≤ c j + 1

theorem fair_tick {r : Runtime} {ids : List Nat} {c : Nat → Nat} (hids : ids.Nodup)
    (hc : ∀ i, c i + 1 < 2 ^ 60) (h : r.Fair ids c) :
    r.onTimerTick.Fair ids fun i => c i + if r.current = some i then 1 else 0 := by
  have hcharged : r.onTimerTick.scheduler.tasks.map Task.id = ids ∧
      ∀ t ∈ r.onTimerTick.scheduler.tasks,
        t.At (c t.id + if r.current = some t.id then 1 else 0) := by
    unfold Runtime.onTimerTick
    cases hcurrent : r.current with
    | none => simpa using ⟨h.named, h.at_⟩
    | some id =>
      simp only [Scheduler.charge, Option.some.injEq]
      split_ifs with hany
      · rw [← h.named] at hids ⊢
        exact chargeFirst_at hids h.at_ fun i => by have := hc i; omega
      · refine ⟨h.named, fun t ht => ?_⟩
        have hne : id ≠ t.id := fun hc => hany (any_eq_true.mpr ⟨t, ht, by simp [hc]⟩)
        simpa [hne] using h.at_ t ht
  have hnear : ∀ i ∈ ids, ∀ j ∈ ids, (c i + if r.current = some i then 1 else 0)
      ≤ (c j + if r.current = some j then 1 else 0) + 2 := by
    intro i hi j hj
    have := h.near i hi j hj
    have := h.current i hi
    split_ifs <;> grind
  refine ⟨hcharged.1, hcharged.2, hnear, fun i hi hpick j hj => ?_⟩
  rcases pick_least hpick with ⟨t, ht, rfl, hleast⟩
  rw [← hcharged.1, mem_map] at hj
  rcases hj with ⟨t', ht', rfl⟩
  have hat := hcharged.2 t' ht'
  refine picked_behind (hcharged.2 t ht) hat ?_ ?_ (hleast t' ht' hat.ready)
  · have := hc t.id
    split_ifs <;> omega
  · have := hc t'.id
    split_ifs <;> omega

/-- Tasks are added at clock zero, with their slices as deadlines. -/
theorem of_at {tasks : List (Nat × UInt8)} (hlength : tasks.length ≤ maxTasks) :
    (Scheduler.of tasks).clock = 0 ∧
      (Scheduler.of tasks).tasks.map Task.id = tasks.map Prod.fst ∧
      ∀ t ∈ (Scheduler.of tasks).tasks, t.At 0 := by
  induction tasks using List.reverseRecOn with
  | nil => exact ⟨rfl, rfl, nofun⟩
  | append_singleton tasks task ih =>
    rw [length_append, length_singleton] at hlength
    rcases ih (by omega) with ⟨hclock, hnamed, hat⟩
    have hroom : (Scheduler.of tasks).tasks.length ≠ maxTasks := by
      have := congrArg List.length hnamed
      simp at this
      omega
    have hadd : Scheduler.of (tasks ++ [task])
        = ((Scheduler.of tasks).add (Task.new task.1 1024 task.2)).2 := by
      simp [Scheduler.of]
    rw [hadd, Scheduler.add, if_neg (by simp [hroom, Task.new])]
    refine ⟨hclock, by simp [hnamed, Task.new], fun t ht => ?_⟩
    rcases mem_append.mp ht with ht | ht
    · exact hat t ht
    · rw [mem_singleton.mp ht, hclock]
      exact ⟨rfl, rfl, rfl, rfl, by simp [Task.new, sliceFor]⟩

theorem charged_le (r : Runtime) (id : Nat) : r.charged id n ≤ n := by
  induction n with
  | zero => exact Nat.le_refl _
  | succ n ih =>
    rw [Runtime.charged]
    split_ifs <;> omega

/-- Up to sixteen tasks of the usual weight, of any latency, whichever of them is
    current first: after any number of ticks no task has been charged more than
    two ticks more than another. -/
theorem ticks_fair (tasks : List (Nat × UInt8)) (hlength : tasks.length ≤ maxTasks)
    (hids : (tasks.map Prod.fst).Nodup) (current : Option Nat) (timerTicks : UInt64) (n : Nat)
    (hn : n < 2 ^ 60) (i j : Nat) (hi : i ∈ tasks.map Prod.fst) (hj : j ∈ tasks.map Prod.fst) :
    let r : Runtime := { scheduler := .of tasks, current, timerTicks }
    r.charged i n ≤ r.charged j n + 2 := by
  intro r
  have hfair : (r.after n).Fair (tasks.map Prod.fst) fun i => r.charged i n := by
    induction n with
    | zero =>
      rcases of_at hlength with ⟨-, hnamed, hat⟩
      exact ⟨hnamed, hat, fun _ _ _ _ => Nat.zero_le _, fun _ _ _ _ _ => Nat.zero_le _⟩
    | succ n ih =>
      exact fair_tick hids (fun i => by have := charged_le r i (n := n); omega) (ih (by omega))
  exact hfair.near i hi j hj

theorem ticks_fair_three :
    let r : Runtime := { scheduler := .of [(1, 3), (2, 0), (3, 1)], current := some 1, timerTicks := 0 }
    r.charged 1 100 ≤ r.charged 2 100 + 2 :=
  ticks_fair [(1, 3), (2, 0), (3, 1)] (by decide) (by decide) _ _ 100 (by decide) 1 2 (by decide)
    (by decide)

/-! ### Virtual runtime -/

/-- A charge is the ticks and whether the task slept. -/
def Task.pay (task : Task) (charge : UInt64 × Bool) : Task := task.charge charge.1 charge.2

/-- The charge does not saturate. -/
def Exact (task : Task) (charge : UInt64 × Bool) : Prop :=
  charge.1.toNat * 1024 < 2 ^ 64 ∧
    task.vruntime.toNat + charge.1.toNat * 1024 / task.weight.toNat < 2 ^ 64

def ticks (charges : List (UInt64 × Bool)) : Nat := (charges.map (·.1.toNat)).sum

/-- What the divisions drop. -/
def dropped (weight : UInt32) (charges : List (UInt64 × Bool)) : Nat :=
  (charges.map (·.1.toNat * 1024 % weight.toNat)).sum

variable {charges : List (UInt64 × Bool)}

theorem run_pay (h : Obeys Task.pay Exact task charges) :
    (run Task.pay task charges).vruntime.toNat * task.weight.toNat + dropped task.weight charges =
      task.vruntime.toNat * task.weight.toNat + ticks charges * 1024 := by
  induction charges generalizing task with
  | nil => rfl
  | cons charge charges ih =>
    rcases h with ⟨⟨hmul, hadd⟩, hrest⟩
    have hprod : (saturatingMul charge.1 1024).toNat = charge.1.toNat * 1024 := by
      rw [saturatingMul_toNat]
      exact Nat.min_eq_left (Nat.le_pred_of_lt hmul)
    have hpaid : (task.pay charge).vruntime.toNat =
        task.vruntime.toNat + charge.1.toNat * 1024 / task.weight.toNat := by
      rw [Task.pay, Task.charge, saturatingAdd_toNat, UInt64.toNat_div, hprod,
        UInt32.toNat_toUInt64]
      omega
    have hrun : (run Task.pay task (charge :: charges)).vruntime.toNat * task.weight.toNat +
        dropped task.weight charges = _ * task.weight.toNat + _ := ih hrest
    have hdiv := Nat.div_add_mod' (charge.1.toNat * 1024) task.weight.toNat
    rw [hpaid, Nat.add_mul] at hrun
    simp only [ticks, dropped, map_cons, sum_cons, Nat.add_mul] at hrun ⊢
    omega

/-- The virtual runtime is less than one off, both sides times the weight, exactly
    if less than the weight was dropped. -/
theorem vruntime_near_iff (id : Nat) (weight : UInt32) (latency : UInt8)
    (h : Obeys Task.pay Exact (.new id weight latency) charges) :
    let v := (run Task.pay (.new id weight latency) charges).vruntime.toNat
    ticks charges * 1024 < (v + 1) * weight.toNat ∧
      v * weight.toNat < ticks charges * 1024 + weight.toNat ↔
        dropped weight charges < weight.toNat := by
  intro v
  have hrun : v * weight.toNat + dropped weight charges =
      0 * weight.toNat + ticks charges * 1024 := run_pay h
  rw [Nat.add_mul]
  omega

theorem vruntime_near_iff_double :
    let v := (run Task.pay (.new 1 2048 0) [(3, false)]).vruntime.toNat
    3 * 1024 < (v + 1) * 2048 ∧ v * 2048 < 3 * 1024 + 2048 :=
  (@vruntime_near_iff [(3, false)] 1 2048 0 ⟨⟨by decide, by decide⟩, trivial⟩).mpr (by decide)

/-- Charges of one tick never move a task of twice the usual weight. -/
theorem vruntime_stuck :
    ¬ ∃ n, (run Task.pay (.new 1 2048 0) (replicate n (1, false))).vruntime ≠ 0 := by
  rintro ⟨n, hmove⟩
  refine hmove (run_invariant Task.pay (fun _ c => c = (1, false))
    (fun task => task.weight = 2048 ∧ task.vruntime = 0) ?_ _ _ ⟨rfl, rfl⟩ ?_).2
  · rintro task _ ⟨hweight, hzero⟩ rfl
    simp only [Task.pay, Task.charge, hweight, hzero]
    decide
  · exact (obeys_iff_mem _ _ _ _).mpr fun _ => eq_of_mem_replicate

end Sched

end Norx
