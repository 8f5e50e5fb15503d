import Mathlib

/-!
# Programs That Could Panic

The shape of a function that returns a `Result` and whose text also has
operations that stop the whole program: an index out of bounds, a sum or a
difference of machine words that does not fit. Such an operation is one that
fails here with `panic`, apart from the errors the function itself returns.

`Ends` is the specification of such a program. It does not panic, and what it
returns satisfies a postcondition; an error of its own may be returned at any
point. One rule for each statement form takes it through a program text, so
that a bound has to be shown where an operation needs it and nowhere else.

## Main definitions

* `Stop`, `Checked`: A program that may fail or panic.
* `Checked.add`, `Checked.sub`, `Checked.mul`: Arithmetic on machine words that
  panics where the result does not fit.
* `Checked.index`, `Checked.slice`: Reading a list where it must be long enough.
* `Checked.require`, `Checked.reject`: Returning an error.
* `Usize.checkedAdd`, `Usize.checkedMul`: Arithmetic that says so instead.
* `Ends`: The specification.

## Theorems

* `ends_foldlM`: What every element of a fold extends holds at its end.
* `ends_forM`: What each element of a list was checked for.
-/

namespace Norx

universe u v

/-- How a program ends early: with an error it returns, or with a panic. -/
inductive Stop (ε : Type u) where
  | error (e : ε)
  | panic
  deriving DecidableEq, Repr

/-- A program that returns an `α`, fails with an `ε` or panics. -/
abbrev Checked (ε : Type u) (α : Type v) := Except (Stop ε) α

namespace Checked

variable {ε : Type u} {α β : Type v}

/-- Return early with an error. -/
def fail (e : ε) : Checked ε α := .error (.error e)

/-- An `Option`, with `none` an error. -/
def require (e : ε) : Option α → Checked ε α
  | some a => .ok a
  | none => fail e

/-- An error if the condition holds. -/
def reject (c : Prop) [Decidable c] (e : ε) : Checked ε PUnit := if c then fail e else .ok ⟨⟩

/-- The sum of two words. -/
def add (a b : Nat) : Checked ε Nat := if a + b < 2 ^ 64 then .ok (a + b) else .error .panic

/-- The difference of two words. -/
def sub (a b : Nat) : Checked ε Nat := if b ≤ a then .ok (a - b) else .error .panic

/-- The product of two words. -/
def mul (a b : Nat) : Checked ε Nat := if a * b < 2 ^ 64 then .ok (a * b) else .error .panic

/-- Element `i` of a list. -/
def index (as : List α) (i : Nat) : Checked ε α :=
  match as[i]? with
  | some a => .ok a
  | none => .error .panic

/-- The elements from `start` up to `end_`. -/
def slice (as : List α) (start end_ : Nat) : Checked ε (List α) :=
  if start ≤ end_ ∧ end_ ≤ as.length then .ok ((as.drop start).take (end_ - start))
  else .error .panic

/-- The program does not panic, and what it returns satisfies `Q`. -/
def Ends (x : Checked ε α) (Q : α → Prop) : Prop :=
  match x with
  | .ok a => Q a
  | .error (.error _) => True
  | .error .panic => False

end Checked

section Rules

open Checked

variable {ε : Type u} {α β : Type v} {Q : α → Prop}

@[simp] theorem ends_pure {a : α} : Ends (pure a : Checked ε α) Q ↔ Q a := Iff.rfl

@[simp] theorem ends_fail (e : ε) : Ends (fail e : Checked ε α) Q := trivial

variable {f : β → Checked ε α}

@[simp] theorem ends_bind {x : Checked ε β} : Ends (x >>= f) Q ↔ Ends x fun b => Ends (f b) Q := by
  rcases x with (_ | _) | b
  · exact Iff.rfl
  · exact Iff.rfl
  · exact Iff.rfl

@[simp] theorem ends_map {x : Checked ε β} {g : β → α} :
    Ends (g <$> x) Q ↔ Ends x fun b => Q (g b) := by
  rw [map_eq_pure_bind]
  exact ends_bind

variable {c : Prop}

@[simp] theorem ends_ite [Decidable c] {x y : Checked ε α} :
    Ends (if c then x else y) Q ↔ (c → Ends x Q) ∧ (¬ c → Ends y Q) := by
  by_cases hc : c
  · simp [hc]
  · simp [hc]

variable {x : Checked ε α}

theorem ends_mono {Q' : α → Prop} (h : Ends x Q) (hQ : ∀ a, Q a → Q' a) : Ends x Q' := by
  rcases x with (_ | _) | a
  · exact trivial
  · exact h
  · exact hQ a h

/-- A statement with a specification of its own, and the rest. -/
theorem ends_then {x : Checked ε β} {P : β → Prop} (h : Ends x P) (hf : ∀ b, P b → Ends (f b) Q) :
    Ends (x >>= f) Q :=
  ends_bind.mpr (ends_mono h hf)

@[simp] theorem ends_require {e : ε} {o : Option α} :
    Ends (require e o) Q ↔ ∀ a, o = some a → Q a := by
  cases o with
  | none => simp [require]
  | some a => simp [require, Ends]

@[simp] theorem ends_reject [Decidable c] {e : ε} {Q : PUnit → Prop} :
    Ends (reject c e) Q ↔ (¬ c → Q ⟨⟩) :=
  ends_ite.trans ⟨fun h => h.2, fun h => ⟨fun _ => trivial, h⟩⟩

/-- An operation that panics unless its condition holds. -/
theorem ends_unless [Decidable c] {a : α} :
    Ends (if c then .ok a else .error .panic : Checked ε α) Q ↔ c ∧ Q a := by
  by_cases hc : c
  · simp [hc, Ends]
  · simp [hc, Ends]

variable {a b : Nat}

@[simp] theorem ends_add {Q : Nat → Prop} :
    Ends (add a b : Checked ε Nat) Q ↔ a + b < 2 ^ 64 ∧ Q (a + b) := ends_unless

@[simp] theorem ends_sub {Q : Nat → Prop} :
    Ends (sub a b : Checked ε Nat) Q ↔ b ≤ a ∧ Q (a - b) := ends_unless

@[simp] theorem ends_mul {Q : Nat → Prop} :
    Ends (mul a b : Checked ε Nat) Q ↔ a * b < 2 ^ 64 ∧ Q (a * b) := ends_unless

@[simp] theorem ends_index {as : List α} {i : Nat} :
    Ends (index as i : Checked ε α) Q ↔ ∃ hi : i < as.length, Q as[i] := by
  by_cases hi : i < as.length
  · simp [index, hi, Ends]
  · simp [index, hi, Ends]

@[simp] theorem ends_slice {as : List α} {start end_ : Nat} {Q : List α → Prop} :
    Ends (slice as start end_ : Checked ε (List α)) Q ↔
      (start ≤ end_ ∧ end_ ≤ as.length) ∧ Q ((as.drop start).take (end_ - start)) := ends_unless

/-- A loop over a list, by what it has done so far. -/
theorem ends_foldlM {f : α → β → Checked ε α} (P : List β → α → Prop) (all : List β)
    (hstep : ∀ done b a, b ∈ all → P done a → Ends (f a b) (P (done ++ [b]))) :
    ∀ (bs done : List β) (a : α), (∀ b ∈ bs, b ∈ all) → P done a →
      Ends (bs.foldlM f a) (P (done ++ bs)) := by
  intro bs
  induction bs with
  | nil =>
    intro done a _ h
    rw [List.append_nil]
    exact h
  | cons b bs ih =>
    intro done a hmem h
    refine ends_then (hstep done b a (hmem b List.mem_cons_self) h) fun a' ha' => ?_
    have hrest := ih (done ++ [b]) a' (fun c hc => hmem c (List.mem_cons_of_mem _ hc)) ha'
    rwa [List.append_assoc, List.singleton_append] at hrest

/-- A check of each element of a list. -/
theorem ends_forM {β : Type u} {f : β → Checked ε PUnit} {P : β → Prop}
    (h : ∀ b, Ends (f b) fun _ => P b) (bs : List β) : Ends (bs.forM f) fun _ => ∀ b ∈ bs, P b := by
  induction bs with
  | nil => exact fun _ hb => nomatch hb
  | cons b bs ih =>
    refine ends_then (h b) fun _ hb => ends_mono ih fun _ hbs c hc => ?_
    rcases List.mem_cons.mp hc with rfl | hc
    · exact hb
    · exact hbs c hc

/-- What a program that does not panic returns is all there is to show of it. -/
theorem ends_of_safe (h : Ends x fun _ => True) : Ends x Q ↔ ∀ a, x = .ok a → Q a := by
  rcases x with (_ | _) | a
  · simp [Ends]
  · exact h.elim
  · simp [Ends]

theorem Checked.Ends.of_ok {a : α} (h : Ends x Q) (hx : x = .ok a) : Q a := by
  rw [hx] at h
  exact h

theorem Checked.Ends.no_panic (h : Ends x Q) : x ≠ .error .panic := by
  intro hx
  rw [hx] at h
  exact h

end Rules

namespace Usize

/-- The sum of two words, if it is one. -/
def checkedAdd (a b : Nat) : Option Nat := if a + b < 2 ^ 64 then some (a + b) else none

/-- The product of two words, if it is one. -/
def checkedMul (a b : Nat) : Option Nat := if a * b < 2 ^ 64 then some (a * b) else none

@[simp] theorem checkedAdd_eq_some {a b c : Nat} : checkedAdd a b = some c ↔ a + b = c ∧ c < 2 ^ 64 := by
  rw [checkedAdd, Option.ite_none_right_eq_some, Option.some.injEq]
  constructor
  · rintro ⟨hfits, rfl⟩
    exact ⟨rfl, hfits⟩
  · rintro ⟨rfl, hfits⟩
    exact ⟨hfits, rfl⟩

@[simp] theorem checkedMul_eq_some {a b c : Nat} : checkedMul a b = some c ↔ a * b = c ∧ c < 2 ^ 64 := by
  rw [checkedMul, Option.ite_none_right_eq_some, Option.some.injEq]
  constructor
  · rintro ⟨hfits, rfl⟩
    exact ⟨rfl, hfits⟩
  · rintro ⟨rfl, hfits⟩
    exact ⟨hfits, rfl⟩

end Usize

end Norx
