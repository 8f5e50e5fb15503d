import Mathlib

/-!
# Fallible Stateful Programs

The shape of a method that borrows its state mutably and returns a `Result`.
The state survives a failure: an early return leaves behind whatever the
statements before it wrote. That is the difference between this and a program
that either commits or rolls back, and it is what an error-atomicity result
has to be about.

`wp` is the weakest precondition with two postconditions, one for a returned
value and one for an error, both over the state left behind. The `wp_*`
lemmas run it over a program text one statement at a time, so a program's
specification is proved by rewriting with them and splitting on the values
its reads return.

## Main definitions

* `Fallible`: A program over a state that returns a value or an error.
* `wp`: The weakest precondition, with a postcondition for each outcome.

## Theorems

* `wp_pure`, `wp_bind`, `wp_fail`, `wp_read`, `wp_modify`, `wp_act`, `wp_lift`,
  `wp_lookup`, `wp_ite`, `wp_dite`, `wp_attempt`, `wp_succeeds`, `wp_mapError`, `wp_within`: One
  rule for each statement form.
* `wp_forM`, `wp_foldlM`: The rules for the two loops over a list.
* `wp_mono`, `wp_and`: Weakening both postconditions, and meeting two of each.
* `of_wp`, `wp_ok`, `wp_error`: Reading a specification off a run.
* `unchanged_of_wp`: A failure that left the state alone.
* `refines_of_wp`, `eq_of_wp`: A run as another one of an abstraction of the state.
* `except_bind_ok`: A chain of early returns that returned got past each.
* `fails_bind`: How one can fail, from how each of them can.
* `foldlM_history`: What each element of a fold extends holds at its end.
-/

namespace Norx

universe u v w

/-- A program over states `σ` that returns an `α` or fails with an `ε`. The
    state it leaves behind is kept in both cases. -/
def Fallible (σ : Type u) (ε : Type v) (α : Type w) := σ → Except ε α × σ

namespace Fallible

variable {σ : Type u} {ε : Type v} {α β : Type w}

/-- Return a value. -/
def ret (a : α) : Fallible σ ε α := fun s => (.ok a, s)

/-- Run one program, then the next on its value; a failure ends the run. -/
def andThen (x : Fallible σ ε α) (f : α → Fallible σ ε β) : Fallible σ ε β := fun s =>
  match x s with
  | (.ok a, s') => f a s'
  | (.error e, s') => (.error e, s')

instance : Monad (Fallible σ ε) where
  pure := ret
  bind := andThen

/-- Fail, leaving the state as it is. -/
def fail (e : ε) : Fallible σ ε α := fun s => (.error e, s)

/-- Compute a value from the current state. -/
def read (f : σ → α) : Fallible σ ε α := fun s => (.ok (f s), s)

/-- Change the state. -/
def modify (f : σ → σ) : Fallible σ ε PUnit := fun s => (.ok ⟨⟩, f s)

/-- Run a function that changes the state and always returns. -/
def act (f : σ → α × σ) : Fallible σ ε α := fun s => (.ok (f s).1, (f s).2)

/-- Compute a `Result` from the current state and return early on an error. -/
def lift (f : σ → Except ε α) : Fallible σ ε α := fun s => (f s, s)

/-- Compute an `Option` from the current state, with `none` an error. -/
def lookup (e : ε) (f : σ → Option α) : Fallible σ ε α := fun s =>
  match f s with
  | some a => (.ok a, s)
  | none => (.error e, s)

/-- Run a program and return its outcome as a value, so that the caller
    decides what a failure means. -/
def attempt (x : Fallible σ ε α) : Fallible σ ε (Except ε α) := fun s =>
  (.ok (x s).1, (x s).2)

/-- Run a program for its effect and return whether it returned. -/
def succeeds {δ : Type v} (x : Fallible σ δ α) : Fallible σ ε Bool := fun s =>
  (.ok (x s).1.isOk, (x s).2)

/-- Run a program and give another error for each of its own. -/
def mapError {δ : Type v} (f : δ → ε) (x : Fallible σ δ α) : Fallible σ ε α := fun s =>
  ((x s).1.mapError f, (x s).2)

/-- Run a program on a part of the state. -/
def within {τ : Type u} (part : σ → τ) (put : σ → τ → σ) (x : Fallible τ ε α) : Fallible σ ε α :=
  fun s => ((x (part s)).1, put s (x (part s)).2)

/-- The weakest precondition: `Q` of the value and the final state when the
    program returns, `E` of the error and the final state when it fails. -/
def wp (x : Fallible σ ε α) (Q : α → σ → Prop) (E : ε → σ → Prop) (s : σ) : Prop :=
  match x s with
  | (.ok a, s') => Q a s'
  | (.error e, s') => E e s'

section Rules

variable (Q : α → σ → Prop) (E : ε → σ → Prop) (s : σ)

@[simp] theorem wp_pure (a : α) : wp (pure a : Fallible σ ε α) Q E s ↔ Q a s := Iff.rfl

@[simp] theorem wp_bind (x : Fallible σ ε β) (f : β → Fallible σ ε α) :
    wp (x >>= f) Q E s ↔ wp x (fun b s' => wp (f b) Q E s') E s := by
  change (match andThen x f s with
    | (.ok a, s') => Q a s'
    | (.error e, s') => E e s') ↔ _
  unfold wp andThen
  rcases x s with ⟨_ | b, s'⟩
  · exact Iff.rfl
  · exact Iff.rfl

@[simp] theorem wp_fail (e : ε) : wp (fail e : Fallible σ ε α) Q E s ↔ E e s := Iff.rfl

@[simp] theorem wp_read (f : σ → α) : wp (read f : Fallible σ ε α) Q E s ↔ Q (f s) s := Iff.rfl

@[simp] theorem wp_modify (f : σ → σ) (Q : PUnit → σ → Prop) :
    wp (modify f : Fallible σ ε PUnit) Q E s ↔ Q ⟨⟩ (f s) := Iff.rfl

@[simp] theorem wp_act (f : σ → α × σ) : wp (act f : Fallible σ ε α) Q E s ↔ Q (f s).1 (f s).2 := Iff.rfl

theorem wp_lift (f : σ → Except ε α) :
    wp (lift f) Q E s ↔ (∀ a, f s = .ok a → Q a s) ∧ (∀ e, f s = .error e → E e s) := by
  unfold wp lift
  cases hf : f s with
  | ok a => simp
  | error e => simp

@[simp] theorem wp_lookup (e : ε) (f : σ → Option α) :
    wp (lookup e f) Q E s ↔ (∀ a, f s = some a → Q a s) ∧ (f s = none → E e s) := by
  unfold wp lookup
  cases hf : f s with
  | some a => simp
  | none => simp

@[simp] theorem wp_ite (c : Prop) [Decidable c] (x y : Fallible σ ε α) :
    wp (if c then x else y) Q E s ↔ (c → wp x Q E s) ∧ (¬ c → wp y Q E s) := by
  by_cases hc : c
  · rw [if_pos hc]
    exact ⟨fun h => ⟨fun _ => h, fun hn => absurd hc hn⟩, fun h => h.1 hc⟩
  · rw [if_neg hc]
    exact ⟨fun h => ⟨fun hp => absurd hp hc, fun _ => h⟩, fun h => h.2 hc⟩

/-- A condition whose branches use which way it went. -/
@[simp] theorem wp_dite (c : Prop) [Decidable c] (x : c → Fallible σ ε α) (y : ¬ c → Fallible σ ε α) :
    wp (if hc : c then x hc else y hc) Q E s ↔
      (∀ hc, wp (x hc) Q E s) ∧ (∀ hc, wp (y hc) Q E s) := by
  by_cases hc : c
  · rw [dif_pos hc]
    exact ⟨fun h => ⟨fun _ => h, fun hn => absurd hc hn⟩, fun h => h.1 hc⟩
  · rw [dif_neg hc]
    exact ⟨fun h => ⟨fun hp => absurd hp hc, fun _ => h⟩, fun h => h.2 hc⟩

variable {x : Fallible σ ε α} {Q' : α → σ → Prop} {E' : ε → σ → Prop}

variable {Q E} in
/-- Weaker postconditions are easier to meet. -/
theorem wp_mono {s : σ} (h : wp x Q E s) (hQ : ∀ a s', Q a s' → Q' a s')
    (hE : ∀ e s', E e s' → E' e s') : wp x Q' E' s := by
  unfold wp at h ⊢
  rcases hx : x s with ⟨_ | a, s'⟩
  · rw [hx] at h
    exact hE _ _ h
  · rw [hx] at h
    exact hQ _ _ h

variable {Q E} in
theorem wp_never {s : σ} (h : wp x Q (fun _ _ => False) s) (hQ : ∀ a s', Q a s' → Q' a s') :
    wp x Q' E s :=
  wp_mono h hQ fun _ _ hfalse => hfalse.elim

variable {Q E s} in
/-- A `Result` that is known to be a value. -/
theorem wp_lift_ok {f : σ → Except ε α} {a : α} (h : f s = .ok a) (hQ : Q a s) :
    wp (lift f) Q E s := by
  simpa [wp_lift, h] using hQ

variable {Q E} in
theorem wp_post {s : σ} (h : wp x Q E s) (hQ : ∀ a s', Q a s' → Q' a s') :
    wp x Q' E s :=
  wp_mono h hQ fun _ _ he => he

theorem wp_true {s : σ} : wp x (fun _ _ => True) (fun _ _ => True) s := by
  unfold wp
  split
  · trivial
  · trivial

/-- A program whose outcome is caught meets the postcondition of whichever
    outcome it had. -/
@[simp] theorem wp_attempt (x : Fallible σ ε α) (Q : Except ε α → σ → Prop) :
    wp (attempt x) Q E s ↔ wp x (fun a => Q (.ok a)) (fun e => Q (.error e)) s := by
  unfold wp attempt
  rcases x s with ⟨_ | a, s'⟩
  · exact Iff.rfl
  · exact Iff.rfl

@[simp] theorem wp_succeeds {δ : Type v} (x : Fallible σ δ α) (Q : Bool → σ → Prop) :
    wp (succeeds x : Fallible σ ε Bool) Q E s ↔ wp x (fun _ => Q true) (fun _ => Q false) s := by
  unfold wp succeeds
  rcases x s with ⟨_ | a, s'⟩
  · exact Iff.rfl
  · exact Iff.rfl

@[simp] theorem wp_mapError {δ : Type v} (f : δ → ε) (x : Fallible σ δ α) :
    wp (mapError f x) Q E s ↔ wp x Q (fun e => E (f e)) s := by
  unfold wp mapError
  rcases x s with ⟨_ | a, s'⟩
  · exact Iff.rfl
  · exact Iff.rfl

@[simp] theorem wp_within {τ : Type u} (part : σ → τ) (put : σ → τ → σ) (x : Fallible τ ε α) :
    wp (within part put x) Q E s ↔
      wp x (fun a t => Q a (put s t)) (fun e t => E e (put s t)) (part s) := by
  unfold wp within
  rcases x (part s) with ⟨_ | a, t⟩
  · exact Iff.rfl
  · exact Iff.rfl

variable {Q E} in
/-- Two specifications of one program are one of both. -/
theorem wp_and {s : σ} (h : wp x Q E s) (h' : wp x Q' E' s) :
    wp x (fun a s' => Q a s' ∧ Q' a s') (fun e s' => E e s' ∧ E' e s') s := by
  unfold wp at h h' ⊢
  rcases hx : x s with ⟨_ | a, s'⟩
  · rw [hx] at h h'
    exact ⟨h, h'⟩
  · rw [hx] at h h'
    exact ⟨h, h'⟩

/-- A loop over a list, with an invariant of the elements still to come. -/
theorem wp_forM {γ : Type*} {f : γ → Fallible σ ε PUnit} {E : ε → σ → Prop}
    (P : List γ → σ → Prop)
    (hstep : ∀ a rest s, P (a :: rest) s → wp (f a) (fun _ => P rest) E s) :
    ∀ (as : List γ) (s : σ), P as s → wp (as.forM f) (fun _ => P []) E s := by
  intro as
  induction as with
  | nil =>
    intro s hs
    exact hs
  | cons a rest ih =>
    intro s hs
    change wp (f a >>= fun _ => rest.forM f) _ _ _
    rw [wp_bind]
    exact wp_post (hstep a rest s hs) (fun _ s' hs' => ih s' hs')

/-- The same for a loop that passes a value on. -/
theorem wp_foldlM {γ : Type*} {f : α → γ → Fallible σ ε α} {E : ε → σ → Prop}
    (P : List γ → α → σ → Prop)
    (hstep : ∀ c rest a s, P (c :: rest) a s → wp (f a c) (P rest) E s) :
    ∀ (cs : List γ) (a : α) (s : σ), P cs a s → wp (cs.foldlM f a) (P []) E s := by
  intro cs
  induction cs with
  | nil =>
    intro a s hs
    exact hs
  | cons c rest ih =>
    intro a s hs
    rw [List.foldlM_cons, wp_bind]
    exact wp_post (hstep c rest a s hs) (fun a' s' hs' => ih a' s' hs')

/-- What holds after either outcome holds of the state left behind. -/
theorem of_wp {P : σ → Prop} {s : σ} (h : wp x (fun _ => P) (fun _ => P) s) : P (x s).2 := by
  unfold wp at h
  rcases hx : x s with ⟨_ | a, s'⟩
  · rw [hx] at h
    exact h
  · rw [hx] at h
    exact h

variable {Q E} in
/-- Reading a specification off a run that returned. -/
theorem wp_ok {s s' : σ} {a : α} (hx : x s = (.ok a, s')) (h : wp x Q E s) : Q a s' := by
  unfold wp at h
  rw [hx] at h
  exact h

variable {Q E} in
/-- Reading a specification off a run that failed. -/
theorem wp_error {s s' : σ} {e : ε} (hx : x s = (.error e, s')) (h : wp x Q E s) : E e s' := by
  unfold wp at h
  rw [hx] at h
  exact h

variable {Q E} in
/-- A specification, with the run it is about. -/
theorem wp_run {s : σ} (h : wp x Q E s) :
    wp x (fun a s' => x s = (.ok a, s') ∧ Q a s') (fun e s' => x s = (.error e, s') ∧ E e s') s := by
  unfold wp at h ⊢
  rcases hx : x s with ⟨_ | a, s'⟩
  · rw [hx] at h
    exact ⟨rfl, h⟩
  · rw [hx] at h
    exact ⟨rfl, h⟩

/-- A program that fails without having written anything. -/
theorem unchanged_of_wp {Q : α → σ → Prop} {s : σ} (h : wp x Q (fun _ s' => s' = s) s) {e : ε}
    (he : (x s).1 = .error e) : (x s).2 = s := by
  unfold wp at h
  rcases hx : x s with ⟨e' | a, s'⟩
  · rw [hx] at h
    exact h
  · rw [hx] at he
    cases he

/-- A run, seen through an abstraction of the value and of the state, from
    what it does in either outcome. -/
theorem refines_of_wp {τ γ : Type*} (f : σ → τ) (g : α → γ) {s : σ} {r : Except ε γ × τ}
    (h : wp x (fun a s' => (.ok (g a), f s') = r) (fun e s' => (.error e, f s') = r) s) :
    ((x s).1.map g, f (x s).2) = r := by
  unfold wp at h
  rcases hx : x s with ⟨_ | a, s'⟩
  · rw [hx] at h
    exact h
  · rw [hx] at h
    exact h

theorem eq_of_wp {τ : Type*} (f : σ → τ) {s : σ} {r : Except ε α × τ}
    (h : wp x (fun a s' => (.ok a, f s') = r) (fun e s' => (.error e, f s') = r) s) :
    ((x s).1, f (x s).2) = r := by
  have hmap := refines_of_wp f id h
  rwa [Except.map_id] at hmap

end Rules

end Fallible

variable {ε : Type u} {α β : Type v}

theorem except_ok_bind (a : α) (f : α → Except ε β) :
    ((Except.ok a : Except ε α) >>= f) = f a := rfl

variable {α : Type v}

@[grind =] theorem throw_eq_error (e : ε) : (throw e : Except ε α) = .error e := rfl

@[simp] theorem throw_ne_ok {e : ε} {a : α} : (throw e : Except ε α) ≠ .ok a := nofun

variable {f : α → Except ε β} {x : Except ε α}

/-- Peeling one early return off a chain of them: a chain that returns got past
    its first link. -/
theorem except_bind_ok {b : β} (h : (x >>= f) = .ok b) : ∃ a, x = .ok a ∧ f a = .ok b := by
  cases x with
  | error e => exact absurd h (by simp [bind, Except.bind])
  | ok a => exact ⟨a, rfl, h⟩

@[simp, grind =] theorem except_bind_eq_ok {b : β} :
    (x >>= f) = .ok b ↔ ∃ a, x = .ok a ∧ f a = .ok b := by
  refine ⟨except_bind_ok, ?_⟩
  rintro ⟨a, rfl, h⟩
  exact h

@[simp, grind =] theorem pure_eq_ok {a b : α} : (pure a : Except ε α) = .ok b ↔ a = b :=
  Except.ok.injEq a b ▸ Iff.rfl

@[simp] theorem ite_throw_eq_ok {c : Prop} [Decidable c] {e : ε} {a : α} :
    (if c then throw e else x) = .ok a ↔ ¬ c ∧ x = .ok a := by
  by_cases hc : c
  · simp [hc]
  · simp [hc]

/-- A chain that returns got past a check at its head. -/
theorem except_guard_ok {c : Prop} [Decidable c] {e : ε} {x : Except ε β} {b : β}
    (h : (if c then throw e >>= f else x) = .ok b) : ¬ c ∧ x = .ok b := by
  by_cases hc : c
  · rw [if_pos hc] at h
    exact nomatch h
  · rw [if_neg hc] at h
    exact ⟨hc, h⟩

/-- Every error the computation can end with meets the condition. -/
def Fails (x : Except ε α) (P : ε → Prop) : Prop := ∀ e, x = .error e → P e

theorem fails_error {P : ε → Prop} {e : ε} (h : P e) : Fails (.error e : Except ε α) P :=
  fun _ he => Except.error.inj he ▸ h

theorem fails_bind {P : ε → Prop} (hx : Fails x P) (hf : ∀ a, Fails (f a) P) :
    Fails (x >>= f) P := by
  cases x with
  | error e => exact fails_error (hx e rfl)
  | ok a => exact hf a

/-- What a fold that can fail has done so far, along with where it is: a
    property that each element extends holds of the whole list at the end. -/
theorem foldlM_history {σ : Type v} {α : Type w} {f : σ → α → Except ε σ} (P : List α → σ → Prop)
    (hstep : ∀ done s a s', P done s → f s a = .ok s' → P (done ++ [a]) s') :
    ∀ (as done : List α) (s s' : σ), P done s → as.foldlM f s = .ok s' → P (done ++ as) s' := by
  intro as
  induction as with
  | nil =>
    intro done s s' hs h
    injection h with h
    rw [List.append_nil, ← h]
    exact hs
  | cons a as ih =>
    intro done s s' hs h
    rcases except_bind_ok h with ⟨middle, hfirst, hrest⟩
    have hdone := ih (done ++ [a]) middle s' (hstep done s a middle hs hfirst) hrest
    rwa [List.append_assoc, List.singleton_append] at hdone

end Norx
