import Mathlib

/-!
# Content in Blocks

A list of items laid out over blocks of one size, at a list of addresses. Writing
goes through the addresses, puts the next part of the content into the block at
each and stops when nothing is left; the last block may be filled up with anything.
Reading takes the items of the blocks one after the other, as many as there are to
be.

The definitions follow the lists, so that a loop over addresses can carry "what is
left to do gives the result" as its invariant.

## Main definitions

* `Format`: How a block holds items.
* `writeBlocks`, `readBlocks`: Writing and reading.
* `touched`: The addresses that are written.

## Theorems

* `take_readBlocks_cons`: Reading the first block.
-/

namespace Norx

open List

universe u v w

/-- How a block holds items: so many of them, and at the front those that were put
    into it. -/
structure Format (B : Type u) (β : Type v) where
  size : Nat
  items : B → List β
  length_items : ∀ b, (items b).length = size
  load : List β → B
  take_load : ∀ part, part.length ≤ size → (items (load part)).take part.length = part

variable {A : Type w} {B : Type u} {β : Type v} (f : Format B β)

/-! ### Reading -/

def readBlocks (addresses : List A) (d : A → B) : List β :=
  addresses.flatMap fun a => f.items (d a)

variable {addresses : List A}

theorem readBlocks_congr {d d' : A → B} (h : ∀ a ∈ addresses, d' a = d a) :
    readBlocks f addresses d' = readBlocks f addresses d := by
  induction addresses with
  | nil => rfl
  | cons a rest ih =>
    have hrest := ih fun b hb => h b (mem_cons_of_mem a hb)
    unfold readBlocks at hrest ⊢
    rw [flatMap_cons, flatMap_cons, hrest, h a mem_cons_self]

/-- The first block gives as much as it has, the others what is left. -/
theorem take_readBlocks_cons (a : A) (rest : List A) (d : A → B) (left : Nat) :
    (readBlocks f (a :: rest) d).take left =
      (f.items (d a)).take (min left f.size) ++
        (readBlocks f rest d).take (left - min left f.size) := by
  have hlen := f.length_items (d a)
  change (f.items (d a) ++ readBlocks f rest d).take left = _
  rw [take_append, hlen]
  rcases Nat.le_total left f.size with h | h
  · rw [Nat.min_eq_left h, Nat.sub_self, Nat.sub_eq_zero_of_le h]
  · have hall : (f.items (d a)).take left = f.items (d a) := take_of_length_le (by omega)
    have hblock : (f.items (d a)).take f.size = f.items (d a) := take_of_length_le (by omega)
    rw [Nat.min_eq_right h, hall, hblock]

/-! ### The addresses used -/

/-- The addresses that take up so many items. -/
def touched : List A → Nat → List A
  | [], _ => []
  | a :: rest, left => if left = 0 then [] else a :: touched rest (left - f.size)

@[simp] theorem touched_zero (addresses : List A) : touched f addresses 0 = [] := by
  cases addresses with
  | nil => rfl
  | cons a rest => rfl

theorem touched_cons {left : Nat} (h : left ≠ 0) (a : A) (rest : List A) :
    touched f (a :: rest) left = a :: touched f rest (left - f.size) := by
  rw [touched, if_neg h]

/-! ### Writing -/

section Writing

variable [DecidableEq A]

def writeBlocks : List A → List β → (A → B) → A → B
  | [], _, d => d
  | a :: rest, input, d =>
    if input.length = 0 then d
    else writeBlocks rest (input.drop f.size) (Function.update d a (f.load (input.take f.size)))

@[simp] theorem writeBlocks_empty (addresses : List A) (d : A → B) :
    writeBlocks f addresses [] d = d := by
  cases addresses with
  | nil => rfl
  | cons a rest => rfl

theorem writeBlocks_cons {input : List β} (h : input.length ≠ 0) (a : A) (rest : List A)
    (d : A → B) : writeBlocks f (a :: rest) input d =
      writeBlocks f rest (input.drop f.size)
        (Function.update d a (f.load (input.take f.size))) := by
  rw [writeBlocks, if_neg h]

theorem writeBlocks_of_not_mem {a : A} (h : a ∉ addresses) (input : List β) (d : A → B) :
    writeBlocks f addresses input d a = d a := by
  induction addresses generalizing input d with
  | nil => rfl
  | cons b rest ih =>
    have hne : a ≠ b := fun hab => h (hab ▸ mem_cons_self)
    rw [writeBlocks]
    split
    · rfl
    · rw [ih (fun hmem => h (mem_cons_of_mem b hmem)), Function.update_of_ne hne]

theorem readBlocks_writeBlocks (hnodup : addresses.Nodup) (input : List β)
    (hfits : input.length ≤ addresses.length * f.size) (d : A → B) :
    (readBlocks f addresses (writeBlocks f addresses input d)).take input.length = input := by
  induction addresses generalizing input d with
  | nil =>
    rw [length_nil, Nat.zero_mul, Nat.le_zero, length_eq_zero_iff] at hfits
    rw [hfits]
    rfl
  | cons a rest ih =>
    rcases Nat.eq_zero_or_pos input.length with hzero | hpos
    · rw [length_eq_zero_iff.mp hzero]
      rfl
    · rcases nodup_cons.mp hnodup with ⟨ha, hrest⟩
      have hpart : (input.take f.size).length = min input.length f.size := by
        rw [length_take, Nat.min_comm]
      have hfirst := f.take_load (input.take f.size) (length_take_le _ _)
      have hleft : (input.drop f.size).length = input.length - min input.length f.size := by
        rw [length_drop]
        omega
      have hroom : (input.drop f.size).length ≤ rest.length * f.size := by
        rw [length_cons, Nat.add_mul] at hfits
        omega
      have hih := ih hrest (input.drop f.size) hroom
        (Function.update d a (f.load (input.take f.size)))
      rw [writeBlocks_cons f (by omega), take_readBlocks_cons, writeBlocks_of_not_mem f ha,
        Function.update_self, ← hpart, hfirst, hpart, ← hleft, hih, take_append_drop]

end Writing

end Norx
