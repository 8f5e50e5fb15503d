import Norx.Lib.Fallible

/-!
# Loops with an Early Return

A loop whose body may return from the function it stands in. A turn of the body
either is the last, with the value to return, or passes a value on to the next
turn. `scan` takes one turn for each element of a list and says how it ended, and
`turns` takes at most a given number of turns and fails if none of them was the
last.

Both have a rule for one run and a rule for two runs side by side. `Both` says that
two programs end alike: both return, with related values, or both fail.

## Main definitions

* `Turn`: What a turn of the body says.
* `scan`, `turns`: The two loops.
* `Both`: Two programs that end alike.

## Theorems

* `both_bind`, `both_next`, `both_scan`, `both_turns`: Two runs side by side.
-/

namespace Norx

universe u v w

/-- The body returns from the function, or goes on with a value. -/
inductive Turn (α : Type u) (β : Type v) where
  | done (a : α)
  | next (b : β)

/-- A condition on a turn, from one on each way it can end. -/
def Turn.Is {α : Type u} {β : Type v} (P : α → Prop) (Q : β → Prop) : Turn α β → Prop
  | done a => P a
  | next b => Q b

namespace Fallible

variable {σ : Type u} {ε : Type v} {α β : Type w} {γ : Type*}

/-- One turn for each element, until one of them is the last. -/
def scan (body : β → γ → Fallible σ ε (Turn α β)) : List γ → β → Fallible σ ε (Turn α β)
  | [], b => pure (.next b)
  | c :: rest, b => do
    match (← body b c) with
    | .done a => return .done a
    | .next b' => scan body rest b'

/-- At most so many turns, and an error if none of them is the last. -/
def turns (exhausted : ε) (body : β → Fallible σ ε (Turn α β)) : Nat → β → Fallible σ ε α
  | 0, _ => fail exhausted
  | fuel + 1, b => do
    match (← body b) with
    | .done a => return a
    | .next b' => turns exhausted body fuel b'

variable {body : β → γ → Fallible σ ε (Turn α β)} {Q : α → σ → Prop} {E : ε → σ → Prop}

theorem wp_scan (P : List γ → β → σ → Prop) (cs : List γ)
    (hstep : ∀ c ∈ cs, ∀ rest b s, P (c :: rest) b s → wp (body b c) (fun t s' => t.Is (fun a => Q a s') (fun b' => P rest b' s')) E s)
    {b : β} {s : σ} (h : P cs b s) :
    wp (scan body cs b) (fun t s' => t.Is (fun a => Q a s') (fun b' => P [] b' s')) E s := by
  induction cs generalizing b s with
  | nil => exact h
  | cons c rest ih =>
    rw [scan, wp_bind]
    apply wp_post (hstep c List.mem_cons_self rest b s h)
    intro t s' ht
    cases t with
    | done a => exact ht
    | next b' => exact ih (fun c' hc' => hstep c' (List.mem_cons_of_mem c hc')) ht

variable {body : β → Fallible σ ε (Turn α β)}

theorem wp_turns {exhausted : ε} (P : Nat → β → σ → Prop) (hend : ∀ b s, P 0 b s → E exhausted s)
    (hstep : ∀ fuel b s, P (fuel + 1) b s →
      wp (body b) (fun t s' => t.Is (fun a => Q a s') (fun b' => P fuel b' s')) E s) :
    ∀ (fuel : Nat) (b : β) (s : σ), P fuel b s → wp (turns exhausted body fuel b) Q E s := by
  intro fuel
  induction fuel with
  | zero =>
    intro b s hs
    exact hend b s hs
  | succ fuel ih =>
    intro b s hs
    rw [turns, wp_bind]
    apply wp_post (hstep fuel b s hs)
    intro t s' ht
    cases t with
    | done a => exact ht
    | next b' => exact ih b' s' ht

/-! ### Two runs -/

/-- Both programs return, or both fail. -/
def Both {τ : Type u} {α' : Type w} (x : Fallible σ ε α) (y : Fallible τ ε α')
    (Q : α → σ → α' → τ → Prop) (E : ε → σ → ε → τ → Prop) (s : σ) (t : τ) : Prop :=
  match x s, y t with
  | (.ok a, s'), (.ok b, t') => Q a s' b t'
  | (.error e, s'), (.error e', t') => E e s' e' t'
  | _, _ => False

section Both

variable {τ : Type u} {γ α' β' γ' : Type w} {x : Fallible σ ε α} {y : Fallible τ ε α'}
  {Q : α → σ → α' → τ → Prop} {E : ε → σ → ε → τ → Prop} {s : σ} {t : τ}

theorem both_mono {Q' : α → σ → α' → τ → Prop} {E' : ε → σ → ε → τ → Prop}
    (h : Both x y Q E s t) (hQ : ∀ a s' b t', Q a s' b t' → Q' a s' b t')
    (hE : ∀ e s' e' t', E e s' e' t' → E' e s' e' t') : Both x y Q' E' s t := by
  unfold Both at h ⊢
  rcases hx : x s with ⟨e | a, s'⟩ <;> rcases hy : y t with ⟨e' | b, t'⟩ <;>
    rw [hx, hy] at h
  · exact hE _ _ _ _ h
  · exact h.elim
  · exact h.elim
  · exact hQ _ _ _ _ h

theorem both_bind {f : β → Fallible σ ε α} {g : β' → Fallible τ ε α'} {x : Fallible σ ε β}
    {y : Fallible τ ε β'}
    (h : Both x y (fun b s' b' t' => Both (f b) (g b') Q E s' t') E s t) :
    Both (x >>= f) (y >>= g) Q E s t := by
  unfold Both at h
  change (match andThen x f s, andThen y g t with
    | (.ok a, s'), (.ok b, t') => Q a s' b t'
    | (.error e, s'), (.error e', t') => E e s' e' t'
    | _, _ => False)
  unfold andThen
  rcases hx : x s with ⟨e | a, s'⟩ <;> rcases hy : y t with ⟨e' | b, t'⟩ <;>
    rw [hx, hy] at h
  · exact h
  · exact h.elim
  · exact h.elim
  · exact h

/-- Reading the relation off a run that returned. -/
theorem both_ok {a : α} {s' : σ} (h : Both x y Q E s t) (hx : x s = (.ok a, s')) :
    ∃ b t', y t = (.ok b, t') ∧ Q a s' b t' := by
  unfold Both at h
  rw [hx] at h
  rcases hy : y t with ⟨e' | b, t'⟩ <;> rw [hy] at h
  · exact h.elim
  · exact ⟨b, t', rfl, h⟩

/-- Two turns that end alike. -/
def Turn.Alike (P : α → α' → Prop) (R : β → β' → Prop) : Turn α β → Turn α' β' → Prop
  | .done a, .done a' => P a a'
  | .next b, .next b' => R b b'
  | _, _ => False

/-- After a turn that ends alike in both runs. -/
theorem both_next {x : Fallible σ ε (Turn β γ)} {y : Fallible τ ε (Turn β' γ')}
    {f : Turn β γ → Fallible σ ε α} {g : Turn β' γ' → Fallible τ ε α'}
    {P : β → σ → β' → τ → Prop} {R : γ → σ → γ' → τ → Prop}
    (h : Both x y (fun u s' u' t' =>
      Turn.Alike (fun b b' => P b s' b' t') (fun c c' => R c s' c' t') u u') E s t)
    (hdone : ∀ b s' b' t', P b s' b' t' → Both (f (.done b)) (g (.done b')) Q E s' t')
    (hnext : ∀ c s' c' t', R c s' c' t' → Both (f (.next c)) (g (.next c')) Q E s' t') :
    Both (x >>= f) (y >>= g) Q E s t := by
  refine both_bind (both_mono h (fun u s' u' t' hu => ?_) fun _ _ _ _ he => he)
  cases u with
  | done b =>
    cases u' with
    | done b' => exact hdone b s' b' t' hu
    | next c' => exact hu.elim
  | next c =>
    cases u' with
    | done b' => exact hu.elim
    | next c' => exact hnext c s' c' t' hu

theorem both_scan {δ : Type*} {body : β → δ → Fallible σ ε (Turn α β)}
    {body' : β' → δ → Fallible τ ε (Turn α' β')} (P : β → σ → β' → τ → Prop) (cs : List δ)
    (hstep : ∀ c ∈ cs, ∀ b s b' t, P b s b' t → Both (body b c) (body' b' c)
      (fun u s' u' t' => Turn.Alike (fun a a' => Q a s' a' t') (fun d d' => P d s' d' t') u u')
      E s t) {b : β} {b' : β'} (h : P b s b' t) :
    Both (scan body cs b) (scan body' cs b') (fun u s' u' t' =>
      Turn.Alike (fun a a' => Q a s' a' t') (fun d d' => P d s' d' t') u u') E s t := by
  induction cs generalizing b s b' t with
  | nil => exact h
  | cons c rest ih =>
    refine both_next (hstep c List.mem_cons_self b s b' t h) (fun _ _ _ _ hdone => hdone) ?_
    exact fun d s' d' t' hd => ih (fun c' hc' => hstep c' (List.mem_cons_of_mem c hc')) hd

theorem both_turns {exhausted : ε}
    {body' : β' → Fallible τ ε (Turn α' β')} (P : β → σ → β' → τ → Prop)
    (hend : ∀ b s b' t, P b s b' t → E exhausted s exhausted t)
    (hstep : ∀ b s b' t, P b s b' t → Both (body b) (body' b')
      (fun u s' u' t' => Turn.Alike (fun a a' => Q a s' a' t')
        (fun d d' => P d s' d' t') u u') E s t) :
    ∀ (fuel : Nat) (b : β) (s : σ) (b' : β') (t : τ), P b s b' t →
      Both (turns exhausted body fuel b) (turns exhausted body' fuel b') Q E s t := by
  intro fuel
  induction fuel with
  | zero =>
    intro b s b' t h
    exact hend b s b' t h
  | succ fuel ih =>
    intro b s b' t h
    exact both_next (hstep b s b' t h) (fun _ _ _ _ hdone => hdone) ih

end Both

end Fallible

end Norx
