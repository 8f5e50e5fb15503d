import Mathlib

/-!
# Runs of a Deterministic System

A system is a function that takes a state and a request to the next state. A
run is a list of requests, and `run` is where it ends. Requests are chosen
freely by the caller, so a statement about every list of requests is a
statement about every interleaving of callers.

`Obeys` says that each request of a run meets a condition at the state it is
made in. A run condition of `True` is every run. `run_invariant` is the
induction all safety results go through: what one permitted step preserves, a
permitted run preserves.

The states passed through on the way are the ends of the prefixes, so a
statement about a whole history is one about `run step s (rs.take k)` for every
`k`; `obeys_take` and `run_take_succ` are what an induction along it needs.

## Main definitions

* `run`: The state a list of requests leads to.
* `Obeys`: Every request meets a condition where it is made.
* `trace`: What was seen of each request.

## Theorems

* `run_invariant`: What every permitted step preserves, a run preserves.
* `run_history`: What every permitted request extends, a run does.
* `run_good_iff`: A property that exactly the forbidden requests break.
* `run_latch`: A flag that some requests set and none clears.
* `run_drain`: Repeating a request until a measure is down to nothing.
* `run_take_succ`: One more request of a run is one more step.
-/

namespace Norx

universe u v w

variable {σ : Type u} {ρ : Type v} (step : σ → ρ → σ) (ok : σ → ρ → Prop)

/-- The state a list of requests leads to. -/
def run : σ → List ρ → σ
  | s, [] => s
  | s, r :: rs => run (step s r) rs

/-- Every request of the list meets the condition at the state it is made
    in. -/
def Obeys : σ → List ρ → Prop
  | _, [] => True
  | s, r :: rs => ok s r ∧ Obeys (step s r) rs

/-- What one permitted step preserves, a permitted run preserves. -/
theorem run_invariant (P : σ → Prop) (hstep : ∀ s r, P s → ok s r → P (step s r)) :
    ∀ (rs : List ρ) (s : σ), P s → Obeys step ok s rs → P (run step s rs) := by
  intro rs
  induction rs with
  | nil =>
    intro s hs _
    exact hs
  | cons r rs ih =>
    intro s hs hok
    exact ih (step s r) (hstep s r hs hok.1) hok.2

/-- What every step preserves, every run preserves. -/
theorem run_keeps {P : σ → Prop} (hstep : ∀ s r, P s → P (step s r)) (rs : List ρ) {s : σ}
    (hs : P s) : P (run step s rs) := by
  induction rs generalizing s with
  | nil => exact hs
  | cons r rs ih => exact ih (hstep s r hs)

/-- A property of states that the invariant implies and that every request against
    the condition breaks: it holds all along a run exactly if the run meets the
    condition. -/
theorem run_good_iff (P good : σ → Prop) (hgood : ∀ s, P s → good s)
    (hstep : ∀ s r, P s → ok s r → P (step s r))
    (hbreak : ∀ s r, P s → ¬ ok s r → ¬ good (step s r)) :
    ∀ (rs : List ρ) (s : σ), P s →
      ((∀ k, good (run step s (rs.take k))) ↔ Obeys step ok s rs) := by
  intro rs
  induction rs with
  | nil =>
    intro s hs
    exact ⟨fun _ => trivial, fun _ k => by rw [List.take_nil]; exact hgood s hs⟩
  | cons r rs ih =>
    intro s hs
    constructor
    · intro h
      have hok : ok s r := by
        by_contra hnot
        exact hbreak s r hs hnot (h 1)
      exact ⟨hok, (ih _ (hstep s r hs hok)).mp fun k => h (k + 1)⟩
    · rintro ⟨hok, hrest⟩ k
      cases k with
      | zero => exact hgood s hs
      | succ k => exact (ih _ (hstep s r hs hok)).mpr hrest k

/-- A flag that some requests set and none clears stands at the end exactly if
    it stood at the start or one of them was made. -/
theorem run_latch (P flag : σ → Prop) (sets : ρ → Prop)
    (hstep : ∀ s r, P s → P (step s r) ∧ (flag (step s r) ↔ flag s ∨ sets r)) (rs : List ρ) :
    ∀ s : σ, P s → (flag (run step s rs) ↔ flag s ∨ ∃ r ∈ rs, sets r) := by
  induction rs with
  | nil =>
    intro s _
    simp [run]
  | cons r rs ih =>
    intro s hs
    rcases hstep s r hs with ⟨hnext, hflag⟩
    rw [run, ih (step s r) hnext, hflag]
    simp [or_assoc]

/-- Repeating a request that lowers a measure until there is none left. -/
theorem run_drain (r : ρ) (P : σ → Prop) (measure : σ → Nat)
    (hstep : ∀ s, P s → measure s ≠ 0 → P (step s r) ∧ measure (step s r) = measure s - 1) :
    ∀ s, P s → P (run step s (List.replicate (measure s) r)) ∧
      measure (run step s (List.replicate (measure s) r)) = 0 := by
  have hcount : ∀ n s, P s → measure s = n → P (run step s (List.replicate n r)) ∧
      measure (run step s (List.replicate n r)) = 0 := by
    intro n
    induction n with
    | zero =>
      intro s hs hzero
      exact ⟨hs, hzero⟩
    | succ n ih =>
      intro s hs hn
      rcases hstep s hs (by omega) with ⟨hnext, hless⟩
      exact ih (step s r) hnext (by omega)
  intro s hs
  exact hcount _ s hs rfl

theorem run_append (s : σ) (rs rs' : List ρ) :
    run step s (rs ++ rs') = run step (run step s rs) rs' := by
  induction rs generalizing s with
  | nil => rfl
  | cons r rs ih => exact ih (step s r)

theorem obeys_append (s : σ) (rs rs' : List ρ) :
    Obeys step ok s (rs ++ rs') ↔ Obeys step ok s rs ∧ Obeys step ok (run step s rs) rs' := by
  induction rs generalizing s with
  | nil => simp [Obeys, run]
  | cons r rs ih => exact (and_congr_right fun _ => ih (step s r)).trans and_assoc.symm

theorem obeys_of_forall (h : ∀ s r, ok s r) (s : σ) (rs : List ρ) : Obeys step ok s rs := by
  induction rs generalizing s with
  | nil => trivial
  | cons r rs ih => exact ⟨h s r, ih (step s r)⟩

/-- A condition on the requests alone is met by a run if each of them meets it. -/
theorem obeys_iff_mem (p : ρ → Prop) (s : σ) (rs : List ρ) :
    Obeys step (fun _ r => p r) s rs ↔ ∀ r ∈ rs, p r := by
  induction rs generalizing s with
  | nil => simp [Obeys]
  | cons r rs ih => simp [Obeys, ih]

theorem obeys_take (s : σ) (rs : List ρ) (k : Nat) (h : Obeys step ok s rs) :
    Obeys step ok s (rs.take k) := by
  induction rs generalizing s k with
  | nil =>
    rw [List.take_nil]
    trivial
  | cons r rs ih =>
    cases k with
    | zero => trivial
    | succ k => exact ⟨h.1, ih (step s r) k h.2⟩

/-- One more request of a run is one more step, and it met the condition. -/
theorem run_take_succ (s : σ) (rs : List ρ) (k : Nat) (hk : k < rs.length)
    (h : Obeys step ok s rs) : ∃ r, ok (run step s (rs.take k)) r ∧
      run step s (rs.take (k + 1)) = step (run step s (rs.take k)) r := by
  induction rs generalizing s k with
  | nil => exact absurd hk (by simp)
  | cons r rs ih =>
    cases k with
    | zero => exact ⟨r, h.1, rfl⟩
    | succ k => exact ih (step s r) k (Nat.lt_of_succ_lt_succ hk) h.2

/-! ### Histories -/

section Trace

variable {ε : Type w} (label : σ → ρ → ε)

/-- What was seen of each request of a run. -/
def trace : σ → List ρ → List ε
  | _, [] => []
  | s, r :: rs => label s r :: trace (step s r) rs

theorem trace_append (s : σ) (rs rs' : List ρ) :
    trace step label s (rs ++ rs')
      = trace step label s rs ++ trace step label (run step s rs) rs' := by
  induction rs generalizing s with
  | nil => rfl
  | cons r rs ih => exact congrArg (label s r :: ·) (ih (step s r))

theorem trace_take (s : σ) (rs : List ρ) (k : Nat) :
    trace step label s (rs.take k) = (trace step label s rs).take k := by
  induction rs generalizing s k with
  | nil =>
    rw [List.take_nil, trace, List.take_nil]
  | cons r rs ih =>
    cases k with
    | zero => rfl
    | succ k => exact congrArg (label s r :: ·) (ih (step s r) k)

/-- What relates the history of a run to where it ends: if one more permitted
    request extends it, a permitted run does. -/
theorem run_history (P : List ε → σ → Prop)
    (hstep : ∀ es s r, P es s → ok s r → P (es ++ [label s r]) (step s r)) :
    ∀ (rs : List ρ) (es : List ε) (s : σ), P es s → Obeys step ok s rs →
      P (es ++ trace step label s rs) (run step s rs) := by
  intro rs
  induction rs with
  | nil =>
    intro es s hs _
    rw [trace, List.append_nil]
    exact hs
  | cons r rs ih =>
    intro es s hs hok
    have hrest := ih (es ++ [label s r]) (step s r) (hstep es s r hs hok.1) hok.2
    rw [List.append_assoc] at hrest
    exact hrest

end Trace

end Norx
