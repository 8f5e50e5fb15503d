import Norx.Lib.Fallible

/-!
# Loops Bounded by Fuel

A loop whose body is a fallible program over a state: it goes on while the
body returns, and ends with the error the body fails with. Two more ways to
end are the loop's own: the state says that there is nothing left to do, or
there is no fuel left for another turn. The first is tested before the second.

`Along` says that the states a run takes its turns from all meet a condition.
`loop_sound` is the induction: what a turn from a good state preserves holds as
long as the loop runs, so the loop ends as a turn from a good state can end.

## Main definitions

* `loop`: The loop.
* `Along`: Every turn of a run is taken from a state that meets a condition.
* `whileLoop`: A loop whose turns cannot fail.

## Theorems

* `loop_sound`: How a run along good states can end.
* `along_of_forall`: A condition every state meets is met along every run.
* `whileLoop_total`: A loop that lowers a measure ends.
-/

namespace Norx

universe u v

variable {σ : Type u} {ε : Type v} (final : σ → Bool) (atEnd noFuel : ε)
  (body : Fallible σ ε PUnit)

/-- Run the body until it fails, the state is final or the fuel is used up. -/
def loop : Nat → σ → ε × σ
  | 0, s => if final s then (atEnd, s) else (noFuel, s)
  | fuel + 1, s =>
    if final s then (atEnd, s)
    else
      match body s with
      | (.ok _, s') => loop fuel s'
      | (.error e, s') => (e, s')

/-- Every turn of the run is taken from a state that meets the condition. -/
def Along (condition : σ → Prop) : Nat → σ → Prop
  | 0, _ => True
  | fuel + 1, s => condition s ∧ ∀ s', body s = (.ok ⟨⟩, s') → Along condition fuel s'

/-- What a turn from a state that meets the condition preserves holds along a
    run of such turns, so the run ends as one of them can end. -/
theorem loop_sound (inv condition : σ → Prop) (good : ε → Prop)
    (hfinal : ∀ s, inv s → final s = false) (hfuel : good noFuel)
    (hbody : ∀ s, inv s → condition s →
      Fallible.wp body (fun _ s' => inv s') (fun e _ => good e) s) :
    ∀ (fuel : Nat) (s : σ), inv s → Along body condition fuel s →
      good (loop final atEnd noFuel body fuel s).1 := by
  -- Induction on the fuel: a turn that returns leaves one less of it and a good state.
  intro fuel
  induction fuel with
  | zero =>
    intro s hs _
    rw [loop, hfinal s hs]
    exact hfuel
  | succ fuel ih =>
    intro s hs halong
    have hturn := hbody s hs halong.1
    rw [loop, hfinal s hs]
    rcases hb : body s with ⟨e | _, s'⟩
    · exact Fallible.wp_error hb hturn
    · exact ih s' (Fallible.wp_ok hb hturn) (halong.2 s' hb)

/-- A condition every state meets is met along every run. -/
theorem along_of_forall {condition : σ → Prop} (h : ∀ s, condition s) :
    ∀ (fuel : Nat) (s : σ), Along body condition fuel s := by
  intro fuel
  induction fuel with
  | zero => exact fun _ => trivial
  | succ fuel ih => exact fun s => ⟨h s, fun s' _ => ih s'⟩

/-! ### Loops that cannot fail -/

section While

variable (condition : σ → Bool) (turn : σ → σ)

/-- Take turns while the condition holds. Nothing is returned when the fuel is
    used up before it fails. -/
def whileLoop : Nat → σ → Option σ
  | 0, s => if condition s then none else some s
  | fuel + 1, s => if condition s then whileLoop fuel (turn s) else some s

/-- A loop each turn of which keeps an invariant and lowers a measure ends, with
    the same result whatever fuel there is beyond the measure. -/
theorem whileLoop_total (inv : σ → Prop) (measure : σ → Nat)
    (hturn : ∀ s, inv s → condition s = true → inv (turn s) ∧ measure (turn s) < measure s) :
    ∀ (n : Nat) (s : σ), inv s → measure s ≤ n → ∃ s', inv s' ∧ condition s' = false ∧
      ∀ fuel, n ≤ fuel → whileLoop condition turn fuel s = some s' := by
  have hdone (s : σ) (hstop : condition s = false) (fuel : Nat) :
      whileLoop condition turn fuel s = some s := by
    cases fuel with
    | zero | succ => simp [whileLoop, hstop]
  intro n
  induction n with
  | zero =>
    intro s hs hzero
    cases hgo : condition s with
    | false => exact ⟨s, hs, hgo, fun fuel _ => hdone s hgo fuel⟩
    | true => exact absurd (hturn s hs hgo).2 (by omega)
  | succ n ih =>
    intro s hs hn
    cases hgo : condition s with
    | false => exact ⟨s, hs, hgo, fun fuel _ => hdone s hgo fuel⟩
    | true =>
      rcases hturn s hs hgo with ⟨hinv, hless⟩
      rcases ih (turn s) hinv (by omega) with ⟨s', hend, hstop, hfuel⟩
      refine ⟨s', hend, hstop, fun fuel hle => ?_⟩
      obtain ⟨k, rfl⟩ : ∃ k, fuel = k + 1 := ⟨fuel - 1, by omega⟩
      rw [whileLoop, if_pos hgo]
      exact hfuel k (by omega)

end While

end Norx
