import Norx.Lib.Run

/-!
# Bounded Queues in a Ring of Cells

A queue kept in a fixed number of cells: items go in at the tail, come out at
the head, and both positions wrap around. Which cells are in use follows from
the head and the length, so what the queue holds is read off the cells with
`window`, and the three numbers belong together in one way only (`Ring`).

What such a queue is for is stated without cells. `offer` and `accept` are the
two operations on a list of items, with everything that can stand in their
way: a reason of the caller's own, a full queue, an empty one, an item the
caller has no room for. A `Transfer` is what an operation turned out to do to
the list, and whatever a run does, the items that went in are those that came
out followed by those still there (`transfers_conserved`): nothing is lost,
repeated or overtaken.

## Main definitions

* `window`: The cells from the head on, wrapping around.
* `Ring`: Head, tail and length of a ring.
* `items`, `Occupied`: The same for cells that may be empty.
* `offer`, `accept`: The operations on a list.
* `orWait`: An operation that waits on one of its errors.
* `Transfer`, `Transfer.Moves`: What an operation did to the list.
* `sent`, `received`: The items that went in and those that came out.

## Theorems

* `window_push`, `window_pop`: What the cells hold after either operation.
* `transfers_conserved`: What went in came out or is still there.
-/

namespace Norx

namespace Fifo

open List

variable {α : Type}

/-! ### Cells -/

/-- What stands in the cells from the head on, wrapping around. -/
def window (n : Nat) (cell : Nat → α) (head length : Nat) : List α :=
  (List.range length).map fun i => cell ((head + i) % n)

/-- The head, the tail and the length of a ring of `n` cells. -/
structure Ring (n head tail length : Nat) : Prop where
  head_lt : head < n
  length_le : length ≤ n
  tail_eq : tail = (head + length) % n

variable {n head tail length : Nat}

@[simp] theorem window_length (cell : Nat → α) :
    (window n cell head length).length = length := by
  unfold window
  simp

variable {cell cell' : Nat → α}

theorem window_congr (h : ∀ i, i < length → cell' ((head + i) % n) = cell ((head + i) % n)) :
    window n cell' head length = window n cell head length := by
  refine map_congr_left fun i hi => ?_
  exact h i (mem_range.mp hi)

theorem Ring.empty (h : 0 < n) : Ring n 0 0 0 where
  head_lt := h
  length_le := Nat.zero_le n
  tail_eq := by simp

theorem Ring.tail_lt (h : Ring n head tail length) : tail < n := by
  rw [h.tail_eq]
  exact Nat.mod_lt _ (Nat.lt_of_le_of_lt (Nat.zero_le head) h.head_lt)

theorem Ring.push (h : Ring n head tail length) (hlt : length < n) :
    Ring n head ((tail + 1) % n) (length + 1) where
  head_lt := h.head_lt
  length_le := hlt
  tail_eq := by
    rw [h.tail_eq, Nat.mod_add_mod]
    rfl

theorem Ring.pop (h : Ring n head tail length) (hpos : length ≠ 0) :
    Ring n ((head + 1) % n) tail (length - 1) where
  head_lt := Nat.mod_lt _ (Nat.lt_of_le_of_lt (Nat.zero_le head) h.head_lt)
  length_le := Nat.le_trans (Nat.sub_le length 1) h.length_le
  tail_eq := by
    rw [h.tail_eq, Nat.mod_add_mod]
    congr 1
    omega

/-- Two cells of a ring less than a turn apart are different. -/
theorem mod_ne_of_lt {a b : Nat} (hlt : a < b) (hturn : b < a + n) : a % n ≠ b % n := by
  intro heq
  have hdvd : n ∣ b - a := (Nat.modEq_iff_dvd' (Nat.le_of_lt hlt)).mp heq
  exact absurd (Nat.le_of_dvd (by omega) hdvd) (by omega)

/-- Writing the cell at the tail appends to what the cells hold. -/
theorem window_push (cell cell' : Nat → α) (h : Ring n head tail length) (hlt : length < n)
    (hsame : ∀ j, j ≠ tail → cell' j = cell j) :
    window n cell' head (length + 1) = window n cell head length ++ [cell' tail] := by
  have hold : window n cell' head length = window n cell head length := by
    refine window_congr fun i hi => hsame _ ?_
    rw [h.tail_eq]
    exact mod_ne_of_lt (by omega) (by omega)
  have hsplit : window n cell' head (length + 1)
      = window n cell' head length ++ [cell' ((head + length) % n)] := by
    unfold window
    rw [range_succ, map_append, map_singleton]
  rw [hsplit, hold, h.tail_eq]

/-- The cell at the head is the first of what the cells hold, whatever becomes
    of it when it has been read. -/
theorem window_pop (h : Ring n head tail length) (hpos : length ≠ 0)
    (hsame : ∀ j, j ≠ head → cell' j = cell j) :
    window n cell head length
      = cell head :: window n cell' ((head + 1) % n) (length - 1) := by
  obtain ⟨k, rfl⟩ := Nat.exists_eq_succ_of_ne_zero hpos
  have hlength := h.length_le
  have hhead : head % n = head := Nat.mod_eq_of_lt h.head_lt
  unfold window
  rw [range_succ_eq_map, map_cons, map_map, Nat.add_zero, hhead,
    Nat.succ_sub_one]
  congr 1
  refine map_congr_left fun i hi => ?_
  have hi' := mem_range.mp hi
  have hturn : ((head + 1) % n + i) % n = (head + (i + 1)) % n := by
    rw [Nat.mod_add_mod]
    congr 1
    omega
  have hne : (head + (i + 1)) % n ≠ head := by
    rw [← hhead]
    exact (mod_ne_of_lt (by omega) (by omega)).symm
  rw [Function.comp_apply, hturn, hsame _ hne]

/-! ### Cells that may be empty -/

/-- What the cells in use hold. -/
def items (n : Nat) (cell : Nat → Option α) (head length : Nat) : List α :=
  (window n cell head length).filterMap id

/-- A ring none of whose cells in use is empty. -/
structure Occupied (n : Nat) (cell : Nat → Option α) (head tail length : Nat) : Prop where
  ring : Ring n head tail length
  used : ∀ o ∈ window n cell head length, ∃ a, o = some a

namespace Occupied

variable {cell cell' : Nat → Option α}

theorem empty (h : 0 < n) (cell : Nat → Option α) : Occupied n cell 0 0 0 where
  ring := Ring.empty h
  used := by
    intro o ho
    cases ho

section Used

variable (h : Occupied n cell head tail length)

include h

theorem items_length : (items n cell head length).length = length := by
  have hall : ∀ l : List (Option α), (∀ o ∈ l, ∃ a, o = some a) →
      (l.filterMap id).length = l.length := by
    intro l
    induction l with
    | nil =>
      intro _
      rfl
    | cons o l ih =>
      intro hused
      rcases hused o mem_cons_self with ⟨a, rfl⟩
      have hrest := ih fun o ho => hused o (mem_cons_of_mem _ ho)
      simp only [filterMap_cons_some (f := id) rfl, length_cons, hrest]
  unfold items
  rw [hall _ h.used, window_length]

theorem push (hlt : length < n) {a : α} (hsame : ∀ j, j ≠ tail → cell' j = cell j)
    (htail : cell' tail = some a) :
    Occupied n cell' head ((tail + 1) % n) (length + 1) ∧
      items n cell' head (length + 1) = items n cell head length ++ [a] := by
  have hwindow := window_push cell cell' h.ring hlt hsame
  rw [htail] at hwindow
  refine ⟨⟨h.ring.push hlt, ?_⟩, ?_⟩
  · intro o ho
    rw [hwindow, mem_append, mem_singleton] at ho
    rcases ho with ho | rfl
    · exact h.used o ho
    · exact ⟨a, rfl⟩
  · unfold items
    rw [hwindow, filterMap_append]
    rfl

theorem first (hpos : length ≠ 0) : ∃ a, cell head = some a := by
  refine h.used _ ?_
  rw [window_pop h.ring hpos fun _ _ => rfl]
  exact mem_cons_self

theorem pop (hpos : length ≠ 0) {a : α} (hsame : ∀ j, j ≠ head → cell' j = cell j)
    (hhead : cell head = some a) :
    Occupied n cell' ((head + 1) % n) tail (length - 1) ∧
      items n cell head length = a :: items n cell' ((head + 1) % n) (length - 1) := by
  have hwindow := window_pop h.ring hpos hsame
  rw [hhead] at hwindow
  refine ⟨⟨h.ring.pop hpos, ?_⟩, ?_⟩
  · intro o ho
    refine h.used o ?_
    rw [hwindow]
    exact mem_cons_of_mem _ ho
  · unfold items
    rw [hwindow]
    rfl

end Used

end Occupied

/-! ### The queue as a list -/

section Spec

variable {ε : Type}

/-- Put an item at the end of a queue of at most `n`, unless the caller has a
    reason not to. -/
def offer (n : Nat) (full : ε) (refused : Option ε) (a : α) (q : List α) :
    Except ε Unit × List α :=
  match refused with
  | some e => (.error e, q)
  | none => if q.length = n then (.error full, q) else (.ok (), q ++ [a])

/-- Take the first item of a queue, unless the caller has a reason not to, in
    general or because of the item. -/
def accept (empty : ε) (refused : Option ε) (unfit : α → Option ε) (q : List α) :
    Except ε α × List α :=
  match refused, q with
  | some e, q => (.error e, q)
  | none, [] => (.error empty, [])
  | none, a :: rest =>
    match unfit a with
    | some e => (.error e, a :: rest)
    | none => (.ok a, rest)

/-- A call that waits on the error that can pass: if it gets to wait, it returns
    nothing instead. -/
def orWait {β : Type} [DecidableEq ε] (blocker : ε) (wait : Except ε Unit) :
    Except ε β × List α → Except ε (Option β) × List α
  | (.ok b, q) => (.ok (some b), q)
  | (.error e, q) => if e = blocker then (wait.map fun _ => none, q) else (.error e, q)

end Spec

/-- What an operation did to the queue. -/
inductive Transfer (α : Type) where
  | put (a : α)
  | take (a : α)
  | rest

/-- The queue before and after a transfer. -/
def Transfer.Moves (n : Nat) (q q' : List α) : Transfer α → Prop
  | put a => q.length < n ∧ q' = q ++ [a]
  | take a => q = a :: q'
  | rest => q' = q

def Transfer.putItem : Transfer α → Option α
  | put a => some a
  | _ => none

def Transfer.takenItem : Transfer α → Option α
  | take a => some a
  | _ => none

/-- The items that went in, in order. -/
def sent (ts : List (Transfer α)) : List α := ts.filterMap Transfer.putItem

/-- The items that came out, in order. -/
def received (ts : List (Transfer α)) : List α := ts.filterMap Transfer.takenItem

/-- The items that went in are those that came out, then those still there. -/
structure Conserved (n : Nat) (ts : List (Transfer α)) (q : List α) : Prop where
  order : sent ts = received ts ++ q
  bound : q.length ≤ n

/-- What a call did, from its answer: a call that failed or returned nothing
    moved nothing. -/
def Transfer.of {ε β : Type} (move : β → Transfer α) : Except ε (Option β) → Transfer α
  | .ok (some b) => move b
  | _ => rest

variable {q q' : List α}

section Moves

variable {ε β : Type}

theorem take_ne_put {b : α} (x : Except ε (Option α)) (h : Transfer.of .take x = .put b) :
    False := by
  rcases x with e | _ | a
  · cases h
  · cases h
  · cases h

theorem put_ne_take {a b : α} (x : Except ε (Option β))
    (h : Transfer.of (fun _ => .put a) x = .take b) : False := by
  rcases x with e | _ | c
  · cases h
  · cases h
  · cases h

variable {refused : Option ε}

theorem offer_moves {full : ε} {a : α} {r : Except ε Unit} (h : (r, q') = offer n full refused a q)
    (hq : q.length ≤ n) : (Transfer.of (fun _ => .put a) (r.map some)).Moves n q q' := by
  unfold offer at h
  cases refused with
  | some e =>
    cases h
    exact rfl
  | none =>
    by_cases hfull : q.length = n
    · cases (if_pos hfull ▸ h :)
      exact rfl
    · cases (if_neg hfull ▸ h :)
      exact ⟨Nat.lt_of_le_of_ne hq hfull, rfl⟩

theorem accept_moves {empty : ε} {unfit : α → Option ε} {r : Except ε α}
    (h : (r, q') = accept empty refused unfit q) :
    (Transfer.of .take (r.map some)).Moves n q q' := by
  unfold accept at h
  cases refused with
  | some e =>
    cases h
    exact rfl
  | none =>
    cases q with
    | nil =>
      cases h
      exact rfl
    | cons a rest =>
      dsimp only at h
      cases hunfit : unfit a with
      | some | none =>
        cases (hunfit ▸ h :)
        exact rfl

theorem orWait_moves [DecidableEq ε] {blocker : ε} {wait : Except ε Unit} {move : β → Transfer α}
    {r : Except ε β × List α} {waited : Except ε (Option β)}
    (h : (waited, q') = orWait blocker wait r)
    (hr : (Transfer.of move (r.1.map some)).Moves n q r.2) :
    (Transfer.of move waited).Moves n q q' := by
  obtain ⟨_ | b, _⟩ := r
  · simp only [orWait] at h
    split_ifs at h
    · cases wait <;> cases h <;> exact hr
    · cases h
      exact hr
  · cases h
    exact hr

end Moves

theorem conserved_snoc {ts : List (Transfer α)} (h : Conserved n ts q) {t : Transfer α}
    (hmoves : t.Moves n q q') : Conserved n (ts ++ [t]) q' := by
  have hsent : sent (ts ++ [t]) = sent ts ++ t.putItem.toList := by
    unfold sent
    rw [filterMap_append]
    cases t <;> rfl
  have hreceived : received (ts ++ [t]) = received ts ++ t.takenItem.toList := by
    unfold received
    rw [filterMap_append]
    cases t <;> rfl
  refine ⟨?_, ?_⟩
  · rw [hsent, hreceived, h.order]
    cases t with
    | put a =>
      rw [hmoves.2]
      simp [Transfer.putItem, Transfer.takenItem]
    | take a =>
      rw [show q = a :: q' from hmoves]
      simp [Transfer.putItem, Transfer.takenItem]
    | rest =>
      rw [show q' = q from hmoves]
      simp [Transfer.putItem, Transfer.takenItem]
  · have hbound := h.bound
    cases t with
    | put a =>
      have hlt := hmoves.1
      rw [hmoves.2, length_append]
      exact hlt
    | take a =>
      rw [show q = a :: q' from hmoves] at hbound
      exact Nat.le_of_succ_le hbound
    | rest =>
      rw [show q' = q from hmoves]
      exact hbound

/-- In a system each step of which is a transfer, what went in came out or is
    still there. -/
theorem transfers_conserved {σ ρ : Type} (step : σ → ρ → σ) (label : σ → ρ → Transfer α)
    (contents : σ → List α) (P : σ → Prop)
    (hstep : ∀ s r, P s → P (step s r) ∧ (label s r).Moves n (contents s) (contents (step s r)))
    {s : σ} (hs : P s) (hempty : contents s = []) (rs : List ρ) :
    Conserved n (trace step label s rs) (contents (run step s rs)) := by
  have hrun := run_history step (fun _ _ => True) label
    (fun ts s' => P s' ∧ Conserved n ts (contents s'))
    (fun ts s' r hboth _ => ⟨(hstep s' r hboth.1).1,
      conserved_snoc hboth.2 (hstep s' r hboth.1).2⟩)
    rs [] s ⟨hs, ?_⟩ (obeys_of_forall step _ (fun _ _ => trivial) _ _)
  · exact hrun.2
  · rw [hempty]
    exact ⟨rfl, Nat.zero_le n⟩

end Fifo

end Norx
