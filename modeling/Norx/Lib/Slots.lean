import Mathlib

/-!
# Fixed-Size Slot Tables

The data structure every table of the kernel is built from: a fixed number of
slots, addressed by number, searched from the bottom for the first slot that
satisfies a test. Nothing here knows what a slot holds.

A table is a function out of `Fin n`, so its size is part of its type and two
tables are equal exactly when all their slots are. Reading is by plain number:
`get` returns the default element past the end. The programs modelled on top
would stop with a bounds failure there, so a caller proves its indices in
range; the default element is always chosen to be the empty slot, which makes
"the slot is in use" imply "the index is in range".

`position` is the search `iter().position(..)`, and `position_eq_some` is the
only fact about it anyone needs: the slot found satisfies the test, and no slot
below it does. `count` is the number of slots satisfying a test, and
`count_set` says how one write moves it.

## Main definitions

* `Slots`: A table of a fixed number of slots.
* `Slots.get`: Reading a slot by number.
* `Slots.set`: Overwriting a slot.
* `Slots.position`: The first slot satisfying a test.
* `Slots.any`: Whether some slot satisfies a test.
* `Slots.map`: Applying a function to every slot.
* `Slots.entries`: What the slots in use hold, in order.
* `Slots.Holds`: Some slot holds an element.
* `Slots.count`: How many slots satisfy a test.
* `Slots.leading`, `Slots.load`: Reading and overwriting the first slots.

## Theorems

* `position_eq_some`: What a successful search found.
* `get_map`, `mem_entries`: Reading a table mapped over or listed.
* `holds_set_some`, `holds_map`: What a table holds after a change.
* `count_set_true`, `count_set_false`: A write moves the count by one.
* `entries_fill`, `entries_clear`, `entries_full`: What is listed after one slot is
  filled or emptied, and when none is free.
* `leading_succ`, `drop_leading`, `leading_set`: One slot more, one less, and a slot
  above written.
-/

namespace Norx

open List

/-- A table of `n` slots. -/
abbrev Slots (n : Nat) (α : Type) := Fin n → α

namespace Slots

variable {n : Nat} {α : Type}

/-- The table with the same element in every slot. -/
def replicate (n : Nat) (a : α) : Slots n α := fun _ => a

/-- Read slot `i`, or the default element past the end. -/
def get [Inhabited α] (t : Slots n α) (i : Nat) : α :=
  if h : i < n then t ⟨i, h⟩ else default

/-- Overwrite slot `i`. Past the end nothing changes. -/
def set (t : Slots n α) (i : Nat) (a : α) : Slots n α :=
  fun j => if j.val = i then a else t j

/-- The lowest slot satisfying the test. -/
def position [Inhabited α] (t : Slots n α) (p : α → Bool) : Option Nat :=
  (List.range n).find? (fun i => p (t.get i))

/-- Whether some slot satisfies the test. -/
def any [Inhabited α] (t : Slots n α) (p : α → Bool) : Bool :=
  (List.range n).any (fun i => p (t.get i))

/-- Apply a function to every slot. -/
def map {β : Type} (f : α → β) (t : Slots n α) : Slots n β := fun i => f (t i)

/-- What the slots in use hold, in order. -/
def entries (t : Slots n (Option α)) : List α := (List.ofFn t).filterMap id

/-- Some slot holds the element. -/
def Holds (t : Slots n (Option α)) (a : α) : Prop := ∃ i, t.get i = some a

/-- How many slots satisfy the test. -/
def count (t : Slots n α) (p : α → Bool) : Nat :=
  (Finset.univ.filter (fun i => p (t i) = true)).card

variable {i : Nat} {t : Slots n (Option α)} {a : α}

section Access

variable [Inhabited α]

theorem get_of_lt (t : Slots n α) (h : i < n) : t.get i = t ⟨i, h⟩ := by
  simp only [get, dif_pos h]

theorem get_of_ge (t : Slots n α) (h : n ≤ i) : t.get i = default := by
  simp only [get, dif_neg (Nat.not_lt.mpr h)]

theorem get_val (t : Slots n α) (i : Fin n) : t.get i.val = t i :=
  get_of_lt t i.isLt

theorem get_replicate (a : α) (h : i < n) : (replicate n a).get i = a := by
  rw [get_of_lt _ h, replicate]

/-- A table filled with the default element reads as the default everywhere,
    past the end included. -/
theorem get_replicate_default (i : Nat) : (replicate n (default : α)).get i = default := by
  by_cases h : i < n
  · exact get_replicate _ h
  · exact get_of_ge _ (Nat.not_lt.mp h)

theorem get_set_self (t : Slots n α) (a : α) (h : i < n) : (t.set i a).get i = a := by
  rw [get_of_lt _ h]
  simp only [set, if_pos]

theorem get_set_other (t : Slots n α) {j : Nat} (a : α) (h : j ≠ i) :
    (t.set i a).get j = t.get j := by
  by_cases hj : j < n
  · rw [get_of_lt _ hj, get_of_lt _ hj]
    simp only [set, if_neg h]
  · rw [get_of_ge _ (Nat.not_lt.mp hj), get_of_ge _ (Nat.not_lt.mp hj)]

/-- Reading after a write in range, as one conditional. -/
theorem get_set (t : Slots n α) (a : α) (h : i < n) (j : Nat) :
    (t.set i a).get j = if j = i then a else t.get j := by
  by_cases hj : j = i
  · rw [if_pos hj, hj, get_set_self t a h]
  · rw [if_neg hj, get_set_other t a hj]

/-- Reading after a write: the element written, or what was there. -/
theorem get_set_cases (t : Slots n α) (i : Nat) (a : α) (j : Nat) :
    (j = i ∧ (t.set i a).get j = a) ∨ (t.set i a).get j = t.get j := by
  by_cases hj : j = i
  · by_cases hlt : j < n
    · rw [← hj]
      exact .inl ⟨rfl, get_set_self t a hlt⟩
    · rw [get_of_ge _ (Nat.not_lt.mp hlt), get_of_ge _ (Nat.not_lt.mp hlt)]
      exact .inr rfl
  · exact .inr (get_set_other t a hj)

variable {β : Type}

/-- Reading a table mapped over, past the end included. -/
theorem get_map [Inhabited β] (f : α → β) (hf : f default = default) (t : Slots n α) (i : Nat) :
    (t.map f).get i = f (t.get i) := by
  by_cases h : i < n
  · rw [get_of_lt _ h, get_of_lt _ h, map]
  · rw [get_of_ge _ (Nat.not_lt.mp h), get_of_ge _ (Nat.not_lt.mp h), hf]

omit [Inhabited α] in
theorem mem_entries : a ∈ t.entries ↔ t.Holds a := by
  simp [Holds, entries]
  constructor
  · rintro ⟨i, hi⟩
    exact ⟨i.val, (get_val t i).trans hi⟩
  · rintro ⟨i, hi⟩
    by_cases h : i < n
    · exact ⟨⟨i, h⟩, (get_of_lt t h).symm.trans hi⟩
    · rw [get_of_ge _ (Nat.not_lt.mp h)] at hi
      cases hi

omit [Inhabited α] in
/-- Filling a free slot. -/
theorem holds_set_some (h : i < n) (hfree : t.get i = none) {a b : α} :
    (t.set i (some b)).Holds a ↔ a = b ∨ t.Holds a := by
  constructor
  · rintro ⟨j, hj⟩
    rw [get_set _ _ h] at hj
    by_cases hji : j = i
    · rw [if_pos hji, Option.some.injEq] at hj
      exact .inl hj.symm
    · rw [if_neg hji] at hj
      exact .inr ⟨j, hj⟩
  · rintro (rfl | ⟨j, hj⟩)
    · exact ⟨i, get_set_self _ _ h⟩
    · refine ⟨j, ?_⟩
      rw [get_set_other _ _ (fun hji => by rw [hji, hfree] at hj; cases hj)]
      exact hj

omit [Inhabited α] in
theorem holds_map {f : α → β} {b : β} :
    (t.map (Option.map f)).Holds b ↔ ∃ a, t.Holds a ∧ f a = b := by
  constructor
  · rintro ⟨i, hi⟩
    rw [get_map (Option.map f) rfl, Option.map_eq_some_iff] at hi
    rcases hi with ⟨a, ha, hfa⟩
    exact ⟨a, ⟨i, ha⟩, hfa⟩
  · rintro ⟨a, ⟨i, hi⟩, rfl⟩
    exact ⟨i, by rw [get_map (Option.map f) rfl, hi, Option.map_some]⟩

omit [Inhabited α] in
theorem rel_some_left {r : α → α → Prop} {x y : Option α} (h : Option.Rel r x y)
    (hx : x = some a) : ∃ b, y = some b ∧ r a b := by
  subst hx
  cases h with
  | some hab => exact ⟨_, rfl, hab⟩

omit [Inhabited α] in
theorem rel_some_right {r : α → α → Prop} {x y : Option α} (h : Option.Rel r x y) {b : α}
    (hy : y = some b) : ∃ a, x = some a ∧ r a b := by
  subst hy
  cases h with
  | some hab => exact ⟨_, rfl, hab⟩

omit [Inhabited α] in
/-- In two tables that agree slot by slot up to a relation, each element of the
    second is related to one of the first. -/
theorem holds_rel_back {r : α → α → Prop} {t u : Slots n (Option α)}
    (h : ∀ i, Option.Rel r (t.get i) (u.get i)) {b : α} (hb : u.Holds b) :
    ∃ a, t.Holds a ∧ r a b := by
  rcases hb with ⟨i, hi⟩
  rcases rel_some_right (h i) hi with ⟨a, hget, hab⟩
  exact ⟨a, ⟨i, hget⟩, hab⟩

omit [Inhabited α] in
theorem holds_rel_forth {r : α → α → Prop} {t u : Slots n (Option α)}
    (h : ∀ i, Option.Rel r (t.get i) (u.get i)) (ha : t.Holds a) : ∃ b, u.Holds b ∧ r a b := by
  rcases ha with ⟨i, hi⟩
  rcases rel_some_left (h i) hi with ⟨b, hget, hab⟩
  exact ⟨b, ⟨i, hget⟩, hab⟩

omit [Inhabited α] in
theorem not_holds_replicate : ¬ (replicate n (none : Option α)).Holds a := by
  rintro ⟨i, hi⟩
  have hnone : (replicate n (none : Option α)).get i = none := get_replicate_default i
  rw [hnone] at hi
  cases hi

theorem ext_get {t u : Slots n α} (h : ∀ i, i < n → t.get i = u.get i) : t = u := by
  funext i
  have hi := h i.val i.isLt
  rwa [get_val, get_val] at hi

omit [Inhabited α] in
/-- Two writes to one slot: the later one stands. -/
theorem set_set (t : Slots n α) (i : Nat) (a b : α) : (t.set i a).set i b = t.set i b := by
  funext j
  simp only [set]
  by_cases hj : j.val = i
  · rw [if_pos hj, if_pos hj]
  · rw [if_neg hj, if_neg hj, if_neg hj]

omit [Inhabited α] in
theorem map_set (f : α → β) (t : Slots n α) (i : Nat) (a : α) :
    (t.set i a).map f = (t.map f).set i (f a) := by
  funext j
  simp only [set, map]
  by_cases hj : j.val = i
  · rw [if_pos hj, if_pos hj]
  · rw [if_neg hj, if_neg hj]

/-- Writing back what a slot already holds changes nothing. -/
theorem set_get (t : Slots n α) (i : Nat) : t.set i (t.get i) = t := by
  funext j
  simp only [set]
  by_cases hj : j.val = i
  · rw [if_pos hj, ← hj, get_val]
  · rw [if_neg hj]

end Access

variable {p : α → Bool}

section Search

variable [Inhabited α]

/-- What a successful search found: a slot in range that satisfies the test,
    with no such slot below it. -/
theorem position_eq_some {t : Slots n α} :
    t.position p = some i ↔ i < n ∧ p (t.get i) = true ∧ ∀ j, j < i → p (t.get j) = false := by
  rw [position, List.find?_range_eq_some]
  simp
  constructor
  · rintro ⟨hp, hi, hlow⟩
    exact ⟨hi, hp, hlow⟩
  · rintro ⟨hi, hp, hlow⟩
    exact ⟨hp, hi, hlow⟩

theorem position_eq_none {t : Slots n α} :
    t.position p = none ↔ ∀ i, i < n → p (t.get i) = false := by
  rw [position, List.find?_eq_none]
  simp

theorem any_eq_true {t : Slots n α} : t.any p = true ↔ ∃ i, i < n ∧ p (t.get i) = true := by
  rw [any, List.any_eq_true]
  simp

theorem any_eq_false {t : Slots n α} : t.any p = false ↔ ∀ i, i < n → p (t.get i) = false := by
  rw [any, List.any_eq_false]
  simp

/-- A search succeeds exactly when some slot satisfies the test. -/
theorem position_isSome_iff_any (t : Slots n α) (p : α → Bool) :
    (t.position p).isSome = t.any p := by
  cases h : t.any p with
  | false =>
    rw [any_eq_false] at h
    rw [position_eq_none.mpr h]
    rfl
  | true =>
    rw [any_eq_true] at h
    rcases h with ⟨i, hi, hp⟩
    cases hpos : t.position p with
    | none =>
      rw [position_eq_none.mp hpos i hi] at hp
      exact absurd hp (by simp)
    | some j => rfl

end Search

section Count

variable [Inhabited α]

section Predicates

variable (t : Slots n α) (p : α → Bool)

/-- Filling a slot that failed the test with an element that passes it raises
    the count by one. -/
theorem count_set_true (h : i < n) (hold : p (t.get i) = false) (hnew : p a = true) :
    (t.set i a).count p = t.count p + 1 := by
  classical
  rw [get_of_lt _ h] at hold
  have hnot : (⟨i, h⟩ : Fin n) ∉ Finset.univ.filter (fun j => p (t j) = true) := by
    simp [hold]
  -- The slots that pass are those that passed, and this one.
  have hset : Finset.univ.filter (fun j => p (t.set i a j) = true)
      = insert (⟨i, h⟩ : Fin n) (Finset.univ.filter (fun j => p (t j) = true)) := by
    ext j
    rw [Finset.mem_filter, Finset.mem_insert, Finset.mem_filter]
    by_cases hj : j.val = i
    · have hj' : j = ⟨i, h⟩ := Fin.ext hj
      simp [set, hj', hnew]
    · have hj' : j ≠ ⟨i, h⟩ := fun hc => hj (congrArg Fin.val hc)
      simp [set, if_neg hj, hj']
  rw [count, count, hset, Finset.card_insert_of_notMem hnot]

/-- Emptying a slot that passed the test lowers the count by one. -/
theorem count_set_false (h : i < n) (hold : p (t.get i) = true) (hnew : p a = false) :
    (t.set i a).count p + 1 = t.count p := by
  -- Undoing the write is the other direction.
  have hback : t = (t.set i a).set i (t.get i) := by
    rw [set_set, set_get]
  have hstep := count_set_true (t.set i a) p (i := i) (a := t.get i) h
    (by rw [get_set_self t a h]; exact hnew) hold
  rw [← hback] at hstep
  exact hstep.symm

/-- A write the test does not see leaves the count alone. -/
theorem count_set_same (h : i < n) (hsame : p (t.get i) = p a) :
    (t.set i a).count p = t.count p := by
  rw [get_of_lt _ h] at hsame
  refine congrArg Finset.card (Finset.filter_congr (fun j _ => ?_))
  by_cases hj : j.val = i
  · have hj' : j = ⟨i, h⟩ := Fin.ext hj
    rw [hj', hsame]
    simp [set]
  · simp only [set, if_neg hj]

/-- Writing a slot moves the count by what the test says of it before and
    after. -/
theorem count_set (a : α) (h : i < n) :
    (t.set i a).count p + (p (t.get i)).toNat = t.count p + (p a).toNat := by
  by_cases hsame : p (t.get i) = p a
  · rw [count_set_same t p h hsame, hsame]
  · cases hold : p (t.get i) with
    | true =>
      have hnew : p a = false := by rwa [hold, Bool.true_eq, Bool.not_eq_true] at hsame
      rw [hnew]
      exact count_set_false t p h hold hnew
    | false =>
      have hnew : p a = true := by rwa [hold, Bool.false_eq, Bool.not_eq_false] at hsame
      rw [hnew]
      exact count_set_true t p h hold hnew

theorem count_eq_zero (h : ∀ i, i < n → p (t.get i) = false) : t.count p = 0 := by
  rw [count, Finset.card_eq_zero, Finset.filter_eq_empty_iff]
  intro i _
  have hi := h i.val i.isLt
  rw [get_val] at hi
  simp [hi]

end Predicates

/-- Nothing counted, nothing there. -/
theorem eq_false_of_count_eq_zero {t : Slots n α} (h : t.count p = 0) (hi : i < n) :
    p (t.get i) = false := by
  rw [count, Finset.card_eq_zero, Finset.filter_eq_empty_iff] at h
  have hnot := h (Finset.mem_univ (⟨i, hi⟩ : Fin n))
  rw [get_of_lt t hi]
  rwa [Bool.not_eq_true] at hnot

end Count

variable {k : Nat}

section Buffer

/-- What the first `k` slots hold, in order. -/
def leading (t : Slots n α) (k : Nat) : List α := (List.ofFn t).take k

/-- Write a list over the first slots. -/
def load (t : Slots n α) (as : List α) : Slots n α := fun i => as.getD i.val (t i)

theorem leading_length (t : Slots n α) (h : k ≤ n) : (t.leading k).length = k := by
  rw [leading, length_take, length_ofFn, Nat.min_eq_left h]

theorem leading_load (t : Slots n α) {as : List α} (h : as.length ≤ n) :
    (t.load as).leading as.length = as := by
  refine ext_getElem (leading_length _ h) fun i hi hi' => ?_
  simp [leading, load, getD_eq_getElem?_getD, List.getElem?_eq_getElem hi']

theorem leading_succ [Inhabited α] (t : Slots n α) (h : k < n) :
    t.leading (k + 1) = t.leading k ++ [t.get k] := by
  have hk : k < (List.ofFn t).length := by rwa [List.length_ofFn]
  rw [leading, leading, List.take_add_one, List.getElem?_eq_getElem hk, List.getElem_ofFn,
    get_of_lt t h]
  rfl

theorem drop_leading [Inhabited α] (t : Slots n α) (hi : i < k) (hk : k ≤ n) :
    (t.leading k).drop i = t.get i :: (t.leading k).drop (i + 1) := by
  have hlen : i < (t.leading k).length := by rwa [leading_length t hk]
  rw [drop_eq_getElem_cons hlen]
  simp [leading, get_of_lt t (Nat.lt_of_lt_of_le hi hk)]

/-- Writing a slot leaves those below it. -/
theorem leading_set (t : Slots n α) (a : α) (h : k ≤ i) : (t.set i a).leading k = t.leading k := by
  refine ext_getElem (by simp [leading]) fun j hj hj' => ?_
  have hjk : j < k := by
    rw [leading, length_take] at hj
    omega
  simp [leading, set, if_neg (show j ≠ i by omega)]

/-- A table filled from the bottom lists its first slots. -/
theorem entries_eq_leading (h : ∀ i, k ≤ i → t.get i = none) :
    t.entries = (t.leading k).filterMap id := by
  have hrest : ((List.ofFn t).drop k).filterMap id = [] := by
    rw [filterMap_eq_nil_iff]
    intro slot hslot
    rcases mem_iff_getElem.mp hslot with ⟨j, hj, rfl⟩
    rw [length_drop, length_ofFn] at hj
    have hnone := h (k + j) (Nat.le_add_right k j)
    rw [get_of_lt t (by omega)] at hnone
    rw [List.getElem_drop, List.getElem_ofFn]
    exact hnone
  rw [entries, ← take_append_drop k (List.ofFn t), filterMap_append, hrest,
    append_nil, leading]

theorem entries_push (hk : k < n) (h : ∀ i, k ≤ i → t.get i = none) (a : α) :
    (t.set k (some a)).entries = t.entries ++ [a] := by
  have habove (i : Nat) (hi : k + 1 ≤ i) : (t.set k (some a)).get i = none := by
    rw [get_set_other _ _ (by omega)]
    exact h i (by omega)
  rw [entries_eq_leading habove, entries_eq_leading h, leading_succ _ hk,
    leading_set _ _ (le_refl k), get_set_self _ _ hk, filterMap_append]
  rfl

/-- A table filled from the bottom up to its number of entries has them in
    order. -/
theorem get_eq_entries (h : ∀ i, k ≤ i → t.get i = none) (hk : k ≤ n) (hlen : t.entries.length = k)
    (i : Nat) : t.get i = t.entries[i]? := by
  rw [entries_eq_leading h] at hlen ⊢
  have hsome : ((t.leading k).filterMap id).map some = t.leading k := by
    have hall := filterMap_length_eq_length.mp (hlen.trans (leading_length t hk).symm)
    rw [map_filterMap]
    refine (filterMap_congr fun slot hslot => ?_).trans filterMap_some
    rcases Option.isSome_iff_exists.mp (hall slot hslot) with ⟨a, ha⟩
    rw [ha]
    exact congrArg some ha.symm
  by_cases hi : i < k
  · have hget : (t.leading k)[i]? = some (t.get i) := by
      rw [leading, List.getElem?_take_of_lt hi, List.getElem?_ofFn, dif_pos (by omega),
        get_of_lt t (by omega)]
    rw [← hsome, List.getElem?_map, Option.map_eq_some_iff] at hget
    rcases hget with ⟨a, ha, hget⟩
    rw [ha, hget]
  · rw [h i (Nat.not_lt.mp hi), List.getElem?_eq_none (by omega)]

end Buffer

section Entries

theorem ofFn_set (t : Slots n α) (i : Nat) (a : α) :
    List.ofFn (t.set i a) = (List.ofFn t).set i a := by
  refine List.ext_getElem (by rw [List.length_set, List.length_ofFn, List.length_ofFn]) ?_
  intro j hj hj'
  rw [List.getElem_ofFn, List.getElem_set, List.getElem_ofFn, set]
  by_cases hij : j = i
  · rw [if_pos hij, if_pos hij.symm]
  · rw [if_neg hij, if_neg (Ne.symm hij)]

/-- Filling a free slot adds its element to those there are. -/
theorem entries_fill (h : i < n) (hfree : t.get i = none) (a : α) :
    (t.set i (some a)).entries.Perm (a :: t.entries) := by
  have hlen : i < (List.ofFn t).length := by rwa [length_ofFn]
  have hat : (List.ofFn t)[i] = none := by
    rw [List.getElem_ofFn, ← get_of_lt t h]
    exact hfree
  have hbefore : t.entries = ((List.ofFn t).take i).filterMap id ++
      ((List.ofFn t).drop (i + 1)).filterMap id := by
    have hsplit : List.ofFn t = (List.ofFn t).take i ++ none :: (List.ofFn t).drop (i + 1) := by
      rw [← hat, getElem_cons_drop, take_append_drop]
    rw [entries, hsplit, filterMap_append]
    simp only [filterMap_cons, id, ← hsplit]
  have hafter : (t.set i (some a)).entries = ((List.ofFn t).take i).filterMap id ++
      a :: ((List.ofFn t).drop (i + 1)).filterMap id := by
    rw [entries, ofFn_set, set_eq_take_append_cons_drop, if_pos hlen, filterMap_append]
    rfl
  rw [hbefore, hafter]
  exact perm_middle

/-- Emptying a slot takes its element out. -/
theorem entries_clear (hat : t.get i = some a) : t.entries.Perm (a :: (t.set i none).entries) := by
  have h : i < n := by
    by_contra hge
    rw [get_of_ge _ (Nat.not_lt.mp hge)] at hat
    cases hat
  have hback : t = (t.set i none).set i (some a) := by
    rw [set_set, ← hat, set_get]
  nth_rewrite 1 [hback]
  exact entries_fill h (get_set_self _ _ h) a

theorem entries_replicate : (replicate n (none : Option α)).entries = [] := by
  rw [eq_nil_iff_forall_not_mem]
  intro a ha
  exact not_holds_replicate (mem_entries.mp ha)

theorem entries_length_le (t : Slots n (Option α)) : t.entries.length ≤ n :=
  (length_filterMap_le _ _).trans_eq (length_ofFn)

/-- A search for a free slot that finds none has seen an element in each. -/
theorem entries_full (h : t.position Option.isNone = none) : t.entries.length = n := by
  rw [position_eq_none] at h
  have hsome : ∀ a ∈ List.ofFn t, (id a).isSome := by
    intro a ha
    rcases mem_ofFn.mp ha with ⟨i, rfl⟩
    have hi := h i.val i.isLt
    rw [get_val] at hi
    rw [id, ← Option.not_isNone, hi]
    rfl
  rw [entries, filterMap_length_eq_length.mpr hsome, length_ofFn]

end Entries

end Slots

end Norx
