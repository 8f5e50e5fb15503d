import Norx.Block.Queue

/-!
# The Queue Keeps the Order of Submission

`poll` carries out queued requests in the order of their slots. That is the order
they were submitted in: no slot is given back while a request is queued, because
`wait` polls first, so from one poll to the next the free slots fill from the
bottom. The requests still queued, in slot order, are therefore the last ones
accepted, and carrying them out takes the device to where the direct one is.

## Main definitions

* `pending`: The queued requests in slot order.
* `Inv`: The invariant of a run.
* `Linearized`: What a caller can rely on.

## Theorems

* `poll_spec`, `wait_spec`, `submit_cases`: What the operations do.
* `pending_submit`: A request accepted is the last one pending.
* `queue_linearizes`: Every permitted run is linearized.
-/

namespace Norx

namespace Block

open Slots List

/-- A slot once it was polled. -/
def finish (request : Request) : Request :=
  if request.state = .queued then { request with state := .complete } else request

/-- The queued requests among the first slots, in slot order. -/
def pendingBelow (queue : Slots queueDepth Request) (n : Nat) : List Request :=
  (queue.leading n).filter (·.state = .queued)

def pending (queue : Slots queueDepth Request) : List Request := pendingBelow queue queueDepth

/-- The request is on the disk as a whole. -/
def Inside (request : Request) : Prop :=
  request.start + request.length ≤ dataSectors * sectorSize

structure Inv (w : World) : Prop where
  direct : w.direct = (pending w.block.queue).foldl process w.block.device
  executed : w.direct.executed = w.accepted
  inside : ∀ request ∈ w.accepted, Inside request
  held : ∀ p ∈ w.held, p.1 < queueDepth ∧
    finish (w.block.queue.get p.1) = { p.2 with state := .complete }
  lent : ∀ i, (w.block.queue.get i).state = .queued → (i, w.block.queue.get i) ∈ w.held
  order : ∀ i j, i < j → (w.block.queue.get j).state = .queued →
    (w.block.queue.get i).state ≠ .free

structure Linearized (w : World) : Prop where
  polled : (poll w.block).device = w.direct
  once : (poll w.block).device.executed = w.accepted
  inside : ∀ request ∈ w.accepted, Inside request
  waited : ∀ p ∈ w.held, (wait p.1 w.block).1 = .ok p.2.length ∧
    (wait p.1 w.block).2.device = w.direct
  rejected : ∀ operation lba buffer length e,
    (submit operation lba buffer length w.block).1 = .error e →
      (submit operation lba buffer length w.block).2 = w.block

/-! ### The operations -/

variable {b : State} {request : Request} {i : Nat} {n : Nat}

theorem pendingBelow_succ (queue : Slots queueDepth Request) (hn : n < queueDepth) :
    pendingBelow queue (n + 1) = pendingBelow queue n ++ [queue.get n].filter (·.state = .queued) := by
  rw [pendingBelow, leading_succ queue hn, filter_append, pendingBelow]

theorem pollSlot_eq (b : State) (i : Nat) :
    (pollSlot b i).device = ([b.queue.get i].filter (·.state = .queued)).foldl process b.device ∧
      (pollSlot b i).queue = b.queue.set i (finish (b.queue.get i)) := by
  by_cases hqueued : (b.queue.get i).state = .queued <;>
    simp [pollSlot, finish, hqueued, set_get]

/-- The loop of `poll` up to a slot: those below are polled, the others are as they
    were. -/
theorem poll_below (b : State) (hn : n ≤ queueDepth) :
    ((List.range n).foldl pollSlot b).device = (pendingBelow b.queue n).foldl process b.device ∧
      ∀ i, ((List.range n).foldl pollSlot b).queue.get i =
        if i < n then finish (b.queue.get i) else b.queue.get i := by
  induction n with
  | zero => exact ⟨rfl, fun i => rfl⟩
  | succ n ih =>
    rcases ih (by omega) with ⟨hdevice, hqueue⟩
    have hslot := pollSlot_eq ((List.range n).foldl pollSlot b) n
    rw [hqueue n, if_neg (Nat.lt_irrefl n), hdevice] at hslot
    rw [range_succ, foldl_append, foldl_cons, foldl_nil, hslot.1, hslot.2,
      pendingBelow_succ b.queue (by omega), foldl_append]
    refine ⟨rfl, fun i => ?_⟩
    rw [get_set _ _ (by omega)]
    grind

theorem poll_spec (b : State) :
    (poll b).device = (pending b.queue).foldl process b.device ∧
      ∀ i, (poll b).queue.get i = finish (b.queue.get i) := by
  refine ⟨(poll_below b le_rfl).1, fun i => ((poll_below b le_rfl).2 i).trans ?_⟩
  split
  · rfl
  · rw [get_of_ge _ (by omega)]
    rfl

theorem finish_ne_queued (request : Request) : (finish request).state ≠ .queued := by
  by_cases hqueued : request.state = .queued <;> simp [finish, hqueued]

/-- The first turn of `wait` finds a request that was queued or complete. -/
theorem wait_spec (hi : i < queueDepth)
    (h : finish (b.queue.get i) = { request with state := .complete }) :
    (wait i b).1 = .ok request.length ∧ (wait i b).2.device = (poll b).device ∧
      (wait i b).2.queue = (poll b).queue.set i .empty := by
  have hslot := ((poll_spec b).2 i).trans h
  simp [wait, if_neg (Nat.not_le.mpr hi), requestTimeoutPolls, waitTurns, hslot]

theorem submit_cases (operation : Operation) (lba : UInt64) (buffer length : Nat) (b : State) :
    (∃ e, submit operation lba buffer length b = (.error e, b)) ∨
    ∃ i request, i < queueDepth ∧ (b.queue.get i).state = .free ∧
      (∀ j, j < i → (b.queue.get j).state ≠ .free) ∧ request.state = .queued ∧ Inside request ∧
      submit operation lba buffer length b = (.ok i, { b with queue := b.queue.set i request }) := by
  unfold submit
  split_ifs with hready hlength hwrite hrange
  iterate 4 exact .inl ⟨_, rfl⟩
  cases hfree : b.queue.position (·.state = .free) with
  | none => exact .inl ⟨_, rfl⟩
  | some i =>
    rcases position_eq_some.mp hfree with ⟨hi, hstate, hbelow⟩
    refine .inr ⟨i, _, hi, of_decide_eq_true hstate, fun j hj => of_decide_eq_false (hbelow j hj),
      rfl, ?_, rfl⟩
    simp only [Usize.checkedAdd, Inside, Request.start, sectorSize, dataSectors,
      ramdiskSectors] at *
    grind

/-! ### The invariant -/

variable {queue : Slots queueDepth Request}

/-- Where nothing is queued from a slot on, nothing there is pending. -/
theorem pendingBelow_eq (hn : n ≤ queueDepth) (hi : i ≤ n)
    (h : ∀ j, i ≤ j → (queue.get j).state ≠ .queued) :
    pendingBelow queue n = pendingBelow queue i := by
  induction n with
  | zero => rw [Nat.le_zero.mp hi]
  | succ n ih =>
    by_cases heq : i = n + 1
    · rw [heq]
    · have hlast : [queue.get n].filter (·.state = .queued) = [] := by
        simpa using h n (by omega)
      rw [pendingBelow_succ queue (by omega), hlast, append_nil, ih (by omega) (by omega)]

theorem pending_eq_nil (h : ∀ j, (queue.get j).state ≠ .queued) : pending queue = [] :=
  (pendingBelow_eq le_rfl (Nat.zero_le _) fun j _ => h j).trans rfl

/-- A request put into the lowest free slot is the last one pending. -/
theorem pending_submit (hi : i < queueDepth) (hqueued : request.state = .queued)
    (h : ∀ j, i ≤ j → (queue.get j).state ≠ .queued) :
    pending (queue.set i request) = pending queue ++ [request] := by
  have hget := get_set queue request hi
  have habove : ∀ j, i + 1 ≤ j → ((queue.set i request).get j).state ≠ .queued := by
    intro j hj
    rw [hget, if_neg (by omega)]
    exact h j (by omega)
  have hlast : [request].filter (·.state = .queued) = [request] := by simp [hqueued]
  rw [pending, pending, pendingBelow_eq le_rfl hi habove, pendingBelow_succ _ hi, hget, if_pos rfl,
    hlast, pendingBelow_eq le_rfl hi.le h, pendingBelow, leading_set queue request le_rfl]
  rfl

theorem process_executed (device : Device) (request : Request) :
    (process device request).executed = device.executed ++ [request] := by
  cases h : request.operation <;> simp [process, h]

/-- A byte outside the buffer may be written before or after the request is carried
    out. -/
theorem process_store (device : Device) {address : Nat} (byte : UInt8)
    (h : address < request.buffer ∨ request.buffer + request.length ≤ address) :
    process (device.store address byte) request =
      (process device request).store address byte := by
  cases hoperation : request.operation with
  | read =>
    simp [process, Device.store, hoperation, Device.mk.injEq]
    funext a
    have hlength : (device.disk.read request.start request.length).length = request.length := by
      simp [Store.read]
    simp [Store.write, hlength]
    split_ifs <;> first | rfl | omega
  | write =>
    have hread : (device.memory.write address [byte]).read request.buffer request.length =
        device.memory.read request.buffer request.length := by
      refine map_congr_left fun k hk => Store.write_other _ ?_
      have := mem_range.mp hk
      simp
      omega
    simp only [process, Device.store, hoperation, hread]

theorem foldl_process_store {requests : List Request} {address : Nat} (byte : UInt8)
    (h : ∀ request ∈ requests,
      address < request.buffer ∨ request.buffer + request.length ≤ address) (device : Device) :
    requests.foldl process (device.store address byte) =
      (requests.foldl process device).store address byte := by
  induction requests generalizing device with
  | nil => rfl
  | cons request requests ih =>
    rw [foldl_cons, process_store device byte (h request mem_cons_self)]
    exact ih (fun r hr => h r (mem_cons_of_mem _ hr)) _

theorem mem_pending (h : request ∈ pending queue) :
    ∃ i, queue.get i = request ∧ request.state = .queued := by
  rcases mem_filter.mp h with ⟨hmem, hstate⟩
  rcases mem_ofFn.mp (mem_of_mem_take hmem) with ⟨i, hi⟩
  exact ⟨i, (get_val queue i).trans hi, of_decide_eq_true hstate⟩

variable {w : World}

theorem inv_submit (h : Inv w) (operation : Operation) (lba : UInt64) (buffer length : Nat) :
    Inv (w.submit operation lba buffer length) := by
  rcases submit_cases operation lba buffer length w.block with
    ⟨e, he⟩ | ⟨i, request, hi, hfree, hbelow, hqueued, hinside, hok⟩
  · simpa [World.submit, he] using h
  · have hget := get_set w.block.queue request hi
    -- the slot was free, so nothing at it or above it is queued
    have habove : ∀ j, i ≤ j → (w.block.queue.get j).state ≠ .queued := by
      intro j hj hstate
      rcases Nat.eq_or_lt_of_le hj with rfl | hlt
      · simp [hfree] at hstate
      · exact h.order i j hlt hstate hfree
    have hheld : ∀ p ∈ w.held, p.1 ≠ i := by
      intro p hp heq
      have hstate := congrArg Request.state (h.held p hp).2
      simp [heq, finish, hfree] at hstate
    simp [World.submit, hok, hget]
    refine ⟨?_, ?_, ?_, ?_, ?_, ?_⟩
    · rw [pending_submit hi hqueued habove, foldl_append, ← h.direct]
      rfl
    · rw [process_executed, h.executed]
    · intro r hr
      rcases mem_append.mp hr with hr | hr
      · exact h.inside r hr
      · rwa [mem_singleton.mp hr]
    · intro p hp
      rcases mem_cons.mp hp with rfl | hp
      · simp [hget, hi, finish, hqueued]
      · simpa [hget, hheld p hp] using h.held p hp
    · intro j hj
      by_cases hji : j = i
      · simp [hget, hji]
      · simp only [hget, if_neg hji] at hj ⊢
        exact mem_cons_of_mem _ (h.lent j hj)
    · intro j k hjk hk
      grind

/-- After a poll nothing is pending, and the slots a caller holds are complete. -/
theorem inv_polled (h : Inv w) {b : State} {held : List (Nat × Request)}
    (hdevice : b.device = (poll w.block).device) (hslots : ∀ i, (b.queue.get i).state ≠ .queued)
    (hheld : ∀ p ∈ held, p ∈ w.held ∧ b.queue.get p.1 = finish (w.block.queue.get p.1)) :
    Inv { w with block := b, held } where
  direct := by
    rw [pending_eq_nil hslots, hdevice, (poll_spec w.block).1]
    exact h.direct
  executed := h.executed
  inside := h.inside
  held p hp := by
    rcases hheld p hp with ⟨hmem, hslot⟩
    refine ⟨(h.held p hmem).1, ?_⟩
    rw [hslot, ← (h.held p hmem).2, finish, if_neg (finish_ne_queued _)]
  lent i hi := absurd hi (hslots i)
  order i j _ hj := absurd hj (hslots j)

theorem inv_step {call : Call} (h : Inv w) (hok : Permitted w call) : Inv (w.step call) := by
  cases call with
  | submitRead lba buffer length => exact inv_submit h .read lba buffer length
  | submitWrite lba buffer length => exact inv_submit h .write lba buffer length
  | poll =>
    refine inv_polled h rfl (fun i => ?_) fun p hp => ⟨hp, (poll_spec w.block).2 p.1⟩
    rw [(poll_spec w.block).2 i]
    exact finish_ne_queued _
  | wait i =>
    rcases hok with ⟨request, hmem⟩
    rcases h.held _ hmem with ⟨hi, hfinish⟩
    rcases wait_spec hi hfinish with ⟨-, hdevice, hqueue⟩
    have hget := get_set (poll w.block).queue .empty hi
    refine inv_polled h hdevice (fun j => ?_) fun p hp => ?_
    · rw [hqueue, hget]
      split
      · simp [Request.empty]
      · rw [(poll_spec w.block).2 j]
        exact finish_ne_queued _
    · rcases mem_filter.mp hp with ⟨hp, hne⟩
      rw [hqueue, hget, if_neg (of_decide_eq_true hne)]
      exact ⟨hp, (poll_spec w.block).2 p.1⟩
  | setReadOnly readOnly => exact ⟨h.direct, h.executed, h.inside, h.held, h.lent, h.order⟩
  | store address byte =>
    refine ⟨?_, h.executed, h.inside, h.held, h.lent, h.order⟩
    refine (congrArg (·.store address byte) h.direct).trans (foldl_process_store byte ?_ _).symm
    intro request hrequest
    rcases mem_pending hrequest with ⟨i, hi, hstate⟩
    rw [← hi] at hstate ⊢
    exact hok _ (h.lent i hstate)

theorem inv_start (hfree : ∀ i, (b.queue.get i).state = .free) (hnew : b.device.executed = []) :
    Inv (World.start b) := by
  have hnone : ∀ j, (b.queue.get j).state ≠ .queued := by simp [hfree]
  refine ⟨?_, hnew, nofun, nofun, fun i hi => absurd hi (hnone i), fun _ j _ hj =>
    absurd hj (hnone j)⟩
  simp [World.start, pending_eq_nil hnone]

theorem Inv.linearized (h : Inv w) : Linearized w where
  polled := (poll_spec w.block).1.trans h.direct.symm
  once := by rw [(poll_spec w.block).1, ← h.direct, h.executed]
  inside := h.inside
  waited p hp := by
    rcases h.held p hp with ⟨hi, hfinish⟩
    rcases wait_spec hi hfinish with ⟨hok, hdevice, -⟩
    exact ⟨hok, hdevice.trans ((poll_spec w.block).1.trans h.direct.symm)⟩
  rejected operation lba buffer length e he := by
    rcases submit_cases operation lba buffer length w.block with
      ⟨e', he'⟩ | ⟨i, request, -, -, -, -, -, hok⟩
    · rw [he']
    · simp [hok] at he

/-- In every run in which an id is waited for at most once and lent buffers are not
    written to, the queue does what the direct device does. -/
theorem queue_linearizes (b : State) (hfree : ∀ i, (b.queue.get i).state = .free)
    (hnew : b.device.executed = []) (calls : List Call)
    (hcalls : Obeys World.step Permitted (World.start b) calls) :
    Linearized (run World.step (World.start b) calls) :=
  (run_invariant World.step Permitted Inv (fun _ _ => inv_step) calls _ (inv_start hfree hnew)
    hcalls).linearized

/-- The driver after `init`, with memory and disk of zeros. -/
def fresh : State :=
  { device := { disk := fun _ => 0, memory := fun _ => 0, executed := [] }
    queue := Slots.replicate _ .empty
    ready := true, readOnly := false, completed := 0, timeouts := 0 }

/-- A write and a read of the sector it wrote, both in the queue when the first is
    waited for. -/
theorem queue_linearizes_small :
    Linearized (run World.step (World.start fresh)
      [.store 4096 7, .submitWrite 3 4096 512, .submitRead 3 8192 512, .wait 0]) := by
  refine queue_linearizes fresh (fun i => ?_) rfl _ ⟨nofun, trivial, trivial, ⟨
    { state := .queued, operation := .write, lba := 3, length := 512, buffer := 4096 }, ?_⟩,
    trivial⟩
  · exact congrArg Request.state (get_replicate_default i)
  · decide

end Block

end Norx
