import Norx.Lib.Checked

/-!
# Two Runs That Return

Two programs run on related inputs, compared when both of them return. `Lockstep`
relates their results; whether one of them fails where the other goes on does not
matter. One rule for each statement form takes it through two program texts of the
same shape.

A check is then nothing to reason about, and what decides a branch has to be the
same in both runs.

## Main definitions

* `Lockstep`: The results are related if there are two.

## Theorems

* `lockstep_pure`, `lockstep_bind`, `lockstep_ite`, `lockstep_require`,
  `lockstep_foldlM`: One rule for each statement form.
-/

namespace Norx

universe u v w

variable {ε : Type u} {α α' β β' : Type v}

/-- If both programs return, their results are related. -/
def Lockstep (x : Except ε α) (y : Except ε α') (R : α → α' → Prop) : Prop :=
  ∀ a a', x = .ok a → y = .ok a' → R a a'

variable {R : α → α' → Prop}

theorem lockstep_pure {a : α} {a' : α'} (h : R a a') :
    Lockstep (pure a : Except ε α) (pure a') R := by
  rintro _ _ ⟨⟩ ⟨⟩
  exact h

variable {f : β → Except ε α} {x : Except ε β} {g : β' → Except ε α'} {y : Except ε β'}

theorem lockstep_bind {S : β → β' → Prop} (h : Lockstep x y S)
    (hf : ∀ b b', S b b' → Lockstep (f b) (g b') R) : Lockstep (x >>= f) (y >>= g) R := by
  intro a a' ha ha'
  cases x with
  | error e => exact nomatch ha
  | ok b =>
    cases y with
    | error e => exact nomatch ha'
    | ok b' => exact hf b b' (h b b' rfl rfl) a a' ha ha'

theorem lockstep_refl (x : Except ε α) : Lockstep x x Eq := by
  intro a a' ha ha'
  exact Except.ok.inj (ha.symm.trans ha')

theorem lockstep_any (x : Except ε α) (y : Except ε α') : Lockstep x y fun _ _ => True :=
  fun _ _ _ _ => trivial

/-- A step that returns the same in both runs. -/
theorem lockstep_eq {x y : Except ε β} {g : β → Except ε α'} (h : Lockstep x y Eq)
    (hf : ∀ b, Lockstep (f b) (g b) R) : Lockstep (x >>= f) (y >>= g) R :=
  lockstep_bind h fun b _ hb => hb ▸ hf b

theorem lockstep_same {g : β → Except ε α'} (hf : ∀ b, Lockstep (f b) (g b) R) :
    Lockstep (x >>= f) (x >>= g) R :=
  lockstep_eq (lockstep_refl x) hf

theorem lockstep_skip (hf : ∀ b b', Lockstep (f b) (g b') R) :
    Lockstep (x >>= f) (y >>= g) R :=
  lockstep_bind (lockstep_any x y) fun b b' _ => hf b b'

theorem lockstep_ends {ε : Type v} {x : Checked ε α} {y : Checked ε α'} {Q : α → Prop}
    {Q' : α' → Prop} (h : Checked.Ends x Q) (h' : Checked.Ends y Q') :
    Lockstep x y fun a a' => Q a ∧ Q' a' :=
  fun _ _ ha ha' => ⟨h.of_ok ha, h'.of_ok ha'⟩

theorem lockstep_fail (e : ε) (y : Except ε α') :
    Lockstep (.error e : Except ε α) y R :=
  fun _ _ h => nomatch h

theorem lockstep_ite {c : Prop} [Decidable c] {x₁ x₂ : Except ε α} {y₁ y₂ : Except ε α'}
    (hpos : c → Lockstep x₁ y₁ R) (hneg : ¬ c → Lockstep x₂ y₂ R) :
    Lockstep (if c then x₁ else x₂) (if c then y₁ else y₂) R := by
  by_cases hc : c
  · rw [if_pos hc, if_pos hc]
    exact hpos hc
  · rw [if_neg hc, if_neg hc]
    exact hneg hc

theorem lockstep_require {e e' : ε} {o : Option α} {o' : Option α'}
    (h : ∀ a a', o = some a → o' = some a' → R a a') :
    Lockstep (Checked.require e o) (Checked.require e' o') R := by
  intro a a' ha ha'
  cases o with
  | none => exact nomatch ha
  | some b =>
    cases o' with
    | none => exact nomatch ha'
    | some b' =>
      obtain rfl := Except.ok.inj ha
      obtain rfl := Except.ok.inj ha'
      exact h _ _ rfl rfl

/-- A loop over a list in both runs. -/
theorem lockstep_foldlM {γ : Type w} {f : α → γ → Except ε α} {g : α' → γ → Except ε α'}
    (hstep : ∀ c a a', R a a' → Lockstep (f a c) (g a' c) R) (cs : List γ) {a : α} {a' : α'}
    (h : R a a') : Lockstep (cs.foldlM f a) (cs.foldlM g a') R := by
  induction cs generalizing a a' with
  | nil => exact lockstep_pure h
  | cons c cs ih =>
    exact lockstep_bind (hstep c a a' h) fun b b' hb => ih hb

end Norx
