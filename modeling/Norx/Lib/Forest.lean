import Mathlib

/-!
# Trees by Parent Pointer

A tree stored as a parent for every node, the way a table of nodes stores it.
Nothing about the pointers alone rules out a cycle, so a node that belongs to
the tree is one from which following them arrives at the root.

`Climbs` says that, and names a set the whole climb stays inside. The set is
what makes the updates provable. A pointer changed outside the set is never
followed (`climbs_congr`), so new nodes and removed leaves leave every other
climb alone; and moving the subtree at `x` under `p` is safe exactly when the
climb from `p` stays clear of `x` (`climbs_reparent`).

## Main definitions

* `Climbs`: Following parents arrives at the root inside a set.

## Theorems

* `climbs_congr`: Pointers outside the set do not matter.
* `climbs_reparent`: Moving a subtree where its root is not an ancestor.
* `climbs_acyclic`: A climb passes through no node twice.
-/

namespace Norx

variable {ι : Type} {parent parent' : ι → ι} {root : ι} {S S' : ι → Prop}

/-- Following parents from a node arrives at the root, through nodes of `S`
    only. -/
inductive Climbs (parent : ι → ι) (root : ι) (S : ι → Prop) : ι → Prop
  | root (h : S root) : Climbs parent root S root
  | step {i : ι} (h : S i) (hup : Climbs parent root S (parent i)) : Climbs parent root S i

variable {i : ι}

theorem climbs_mono (h : Climbs parent root S i) (hS : ∀ j, S j → S' j) :
    Climbs parent root S' i := by
  induction h with
  | root h => exact Climbs.root (hS _ h)
  | step h _ ih => exact Climbs.step (hS _ h) ih

/-- Pointers that agree on the set the climb stays in give the same climb. -/
theorem climbs_congr (h : Climbs parent root S i) (hS : ∀ j, S j → parent' j = parent j) :
    Climbs parent' root S i := by
  induction h with
  | root h => exact Climbs.root h
  | step h _ ih =>
    refine Climbs.step h ?_
    rw [hS _ h]
    exact ih

/-- Moving the subtree at `x` under a node whose own climb stays clear of `x`
    keeps every climb: one that reaches `x` continues along the new path. -/
theorem climbs_reparent {i x : ι} (h : Climbs parent root S i) (hx : S x)
    (hother : ∀ j, j ≠ x → parent' j = parent j)
    (hclear : Climbs parent root (fun j => S j ∧ j ≠ x) (parent' x)) :
    Climbs parent' root S i := by
  have hnew : Climbs parent' root S (parent' x) :=
    climbs_mono (climbs_congr hclear (fun j hj => hother j hj.2)) (fun j hj => hj.1)
  induction h with
  | root h => exact Climbs.root h
  | @step j h _ ih =>
    by_cases hj : j = x
    · rw [hj]
      exact Climbs.step hx hnew
    · refine Climbs.step h ?_
      rw [hother j hj]
      exact ih

theorem climbs_iterate (h : Climbs parent root S i) : ∃ n, parent^[n] i = root := by
  induction h with
  | root _ => exact ⟨0, rfl⟩
  | step _ _ ih =>
    rcases ih with ⟨n, hn⟩
    exact ⟨n + 1, hn⟩

/-- A climb passes through no node twice: two equal steps could be cut out,
    and the shortest climb has nothing to cut. -/
theorem climbs_acyclic (h : Climbs parent root S i) :
    ∃ n, parent^[n] i = root ∧
      ∀ a b, a < b → b ≤ n → parent^[a] i ≠ parent^[b] i := by
  classical
  have hex := climbs_iterate h
  refine ⟨Nat.find hex, Nat.find_spec hex, ?_⟩
  intro a b hab hb heq
  -- Without the steps from `a` to `b` the root is reached sooner.
  have hcut : parent^[Nat.find hex - b + a] i = root := by
    rw [Function.iterate_add_apply, heq, ← Function.iterate_add_apply,
      Nat.sub_add_cancel hb]
    exact Nat.find_spec hex
  exact Nat.find_min hex (by omega) hcut

end Norx
