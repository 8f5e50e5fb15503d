import Norx.Lib.Slots

/-!
# Slots Named by Generation

A table whose slots are used again and again, and whose records are named in
such a way that a name does not outlive its record. Every slot has a
generation, a 16-bit counter that goes up when the slot is freed. A name is
one word: the generation the slot had in the upper half and the number of the
slot, counted from one, in the lower. It leads somewhere only as long as the
generation in it is the slot's own.

What this buys is stated with two predicates. `Given` says that a name has been
given out, to a record that is still there or to one that is gone; `Retired`
says that the slot has moved past the name. Both are kept by every change that
satisfies `Evolves`: in each slot the generation stays and the record with it,
or the generation rises. A free slot then always offers a name that was not
given out before.

The counter can run out. `checkedSucc` fails at the last generation, and a
table that frees the slot all the same does not satisfy `Evolves` from there.

## Main definitions

* `name`, `slotOf`, `generationOf`: Building a name and taking it apart.
* `locate`: The slot and the record a name leads to.
* `checkedSucc`: The next generation, if there is one.
* `Named`: Every record carries the name of its slot.
* `Given`, `Retired`: What has become of a name.
* `Evolves`: A change that does not bring back an old name.

## Theorems

* `locate_iff`: In a table of named records, names lead to their records.
* `holds_unique`, `holds_clear`, `holds_replace`: Which records such a table
  holds, before and after a change.
* `named_set_some`, `named_clear`, `named_rel`: Changes that keep records named.
* `not_given_of_free`, `given_set`: A free slot offers a new name.
* `evolves_rel`, `evolves_set_some`, `evolves_clear`: Changes that evolve.
* `retired_clear`: Freeing a slot retires the name of its record.
* `locate_retired`: A retired name leads nowhere.
-/

namespace Norx

namespace Arena

open Slots

/-- The name of a slot in a generation. -/
def name (slot : Nat) (generation : UInt16) : UInt32 :=
  generation.toUInt32 <<< 16 ||| (UInt32.ofNat slot + 1)

/-- The slot of a name in a table of `n` slots. -/
def slotOf (n : Nat) (raw : UInt32) : Option Nat :=
  let slot := (raw &&& 0xffff).toNat
  if slot ≠ 0 ∧ slot ≤ n then some (slot - 1) else none

/-- The generation of a name. -/
def generationOf (raw : UInt32) : UInt16 := (raw >>> 16).toUInt16

/-- The generation after this one. -/
def checkedSucc (generation : UInt16) : Option UInt16 :=
  if generation = 65535 then none else some (generation + 1)

/-! ### Names as numbers -/

theorem name_toNat {slot : Nat} (generation : UInt16) (h : slot < 65535) :
    (name slot generation).toNat = generation.toNat * 65536 + (slot + 1) := by
  have hgeneration := generation.toNat_lt
  have hslot : (UInt32.ofNat slot + 1).toNat = slot + 1 := by
    rw [UInt32.toNat_add, UInt32.toNat_ofNat', UInt32.toNat_one]
    omega
  have hshift : (generation.toUInt32 <<< 16).toNat = generation.toNat <<< 16 := by
    change generation.toNat <<< 16 % 2 ^ 32 = _
    omega
  rw [name, UInt32.toNat_or, hshift, hslot, ← Nat.shiftLeft_add_eq_or_of_lt (by omega),
    Nat.shiftLeft_eq]

theorem low_toNat (raw : UInt32) : (raw &&& 0xffff).toNat = raw.toNat % 65536 := by
  exact Nat.and_two_pow_sub_one_eq_mod raw.toNat 16

theorem generationOf_toNat (raw : UInt32) : (generationOf raw).toNat = raw.toNat / 65536 := by
  have hraw := raw.toNat_lt
  change raw.toNat >>> 16 % 2 ^ 16 = _
  omega

variable {raw : UInt32} {i : Nat}

theorem slotOf_eq_some {n : Nat} : slotOf n raw = some i ↔ raw.toNat % 65536 = i + 1 ∧ i < n := by
  rw [slotOf, low_toNat]
  simp
  omega

theorem slotOf_name {n slot : Nat} (generation : UInt16) (h : slot < n) (hn : n < 65536) :
    slotOf n (name slot generation) = some slot := by
  rw [slotOf_eq_some, name_toNat generation (by omega)]
  omega

theorem generationOf_name {slot : Nat} (generation : UInt16) (h : slot < 65535) :
    generationOf (name slot generation) = generation := by
  apply UInt16.toNat_inj.mp
  rw [generationOf_toNat, name_toNat generation h]
  omega

variable {generation : UInt16}

theorem checkedSucc_eq_some {next : UInt16} :
    checkedSucc generation = some next ↔ next.toNat = generation.toNat + 1 := by
  have hlt := generation.toNat_lt
  have hnext := next.toNat_lt
  rw [checkedSucc]
  by_cases hlast : generation = 65535
  · rw [if_pos hlast, hlast]
    simp
    change ¬ next.toNat = 65535 + 1
    omega
  · have hne : generation.toNat ≠ 65535 := fun hc => hlast (UInt16.toNat_inj.mp hc)
    rw [if_neg hlast, Option.some.injEq, ← UInt16.toNat_inj, UInt16.toNat_add, UInt16.toNat_one]
    omega

theorem checkedSucc_eq_none : checkedSucc generation = none ↔ generation = 65535 := by
  rw [checkedSucc]
  simp

/-! ### Finding a record by name -/

section Table

variable {n : Nat} {ρ : Type}

/-- The slot and the record a name leads to: the slot of the name, if its
    generation is the name's and the record in it goes by that name. -/
def locate (slots : Slots n (Option ρ)) (generations : Slots n UInt16) (nameOf : ρ → UInt32)
    (raw : UInt32) : Option (Nat × ρ) :=
  (slotOf n raw).bind fun i =>
    if generations.get i ≠ generationOf raw then none
    else (slots.get i).bind fun record => if nameOf record = raw then some (i, record) else none

/-- Every record carries the name of its slot. -/
def Named (slots : Slots n (Option ρ)) (generations : Slots n UInt16) (nameOf : ρ → UInt32) :
    Prop :=
  ∀ i record, slots.get i = some record → nameOf record = name i (generations.get i)

/-- The name was given out at some time. -/
def Given (slots : Slots n (Option ρ)) (generations : Slots n UInt16) (nameOf : ρ → UInt32)
    (raw : UInt32) : Prop :=
  ∃ i, slotOf n raw = some i ∧ ((generationOf raw).toNat < (generations.get i).toNat ∨
    generations.get i = generationOf raw ∧
      ∃ record, slots.get i = some record ∧ nameOf record = raw)

/-- The slot of the name has moved on to a later generation. -/
def Retired (generations : Slots n UInt16) (raw : UInt32) : Prop :=
  ∃ i, slotOf n raw = some i ∧ (generationOf raw).toNat < (generations.get i).toNat

/-- In every slot the generation rises, or it stays and so does the record, by
    the same name. -/
def Evolves (slots slots' : Slots n (Option ρ)) (generations generations' : Slots n UInt16)
    (nameOf : ρ → UInt32) : Prop :=
  ∀ i, (generations.get i).toNat < (generations'.get i).toNat ∨
    (generations'.get i = generations.get i ∧ ∀ record, slots.get i = some record →
      ∃ record', slots'.get i = some record' ∧ nameOf record' = nameOf record)

variable {record : ρ} {slots : Slots n (Option ρ)}

theorem lt_of_get_some (h : slots.get i = some record) : i < n := by
  by_contra hc
  rw [get_of_ge _ (Nat.not_lt.mp hc)] at h
  cases h

/-- A record in a table that was written to: the one written, or one from before. -/
theorem get_set_some {new : Option ρ} {j : Nat} (h : (slots.set i new).get j = some record) :
    j = i ∧ new = some record ∨ j ≠ i ∧ slots.get j = some record := by
  by_cases hji : j = i
  · subst hji
    exact .inl ⟨rfl, (get_set_self _ _ (lt_of_get_some h)).symm.trans h⟩
  · exact .inr ⟨hji, (get_set_other _ _ hji).symm.trans h⟩

theorem locate_eq_some {generations : Slots n UInt16} {nameOf : ρ → UInt32} :
    locate slots generations nameOf raw = some (i, record) ↔
      slotOf n raw = some i ∧ generations.get i = generationOf raw ∧
        slots.get i = some record ∧ nameOf record = raw := by
  simp only [locate, Option.bind_eq_some_iff, ne_eq, ite_not, Option.ite_none_right_eq_some,
    Option.some.injEq, Prod.mk.injEq]
  constructor
  · rintro ⟨j, hslot, hgeneration, r, hget, hname, rfl, rfl⟩
    exact ⟨hslot, hgeneration, hget, hname⟩
  · rintro ⟨hslot, hgeneration, hget, hname⟩
    exact ⟨i, hslot, hgeneration, record, hget, hname, rfl, rfl⟩

section Named

variable {slots : Slots n (Option ρ)} {generations : Slots n UInt16} {nameOf : ρ → UInt32}
  (hn : n < 65536) (h : Named slots generations nameOf)

include hn h

/-- Where every record carries the name of its slot, a name leads to the record
    that carries it. -/
theorem locate_iff :
    locate slots generations nameOf raw = some (i, record) ↔
      slots.get i = some record ∧ nameOf record = raw := by
  rw [locate_eq_some]
  constructor
  · rintro ⟨-, -, hget, hname⟩
    exact ⟨hget, hname⟩
  · rintro ⟨hget, rfl⟩
    have hlt := lt_of_get_some hget
    rw [h i record hget, slotOf_name _ hlt hn, generationOf_name _ (by omega)]
    exact ⟨rfl, rfl, hget, rfl⟩

variable {record record' : ρ}

/-- Records by one name are in one slot. -/
theorem slot_unique {j : Nat} (hi : slots.get i = some record) (hj : slots.get j = some record')
    (hname : nameOf record = nameOf record') : i = j := by
  have hslot := slotOf_name (generations.get i) (lt_of_get_some hi) hn
  rw [← h i record hi, hname, h j record' hj,
    slotOf_name _ (lt_of_get_some hj) hn, Option.some.injEq] at hslot
  exact hslot.symm

/-- Records by one name are one record. -/
theorem holds_unique (hr : slots.Holds record) (hr' : slots.Holds record')
    (hname : nameOf record = nameOf record') : record = record' := by
  rcases hr with ⟨i, hi⟩
  rcases hr' with ⟨j, hj⟩
  rw [slot_unique hn h hi hj hname, hj, Option.some.injEq] at hi
  exact hi.symm

/-- Emptying a slot takes away the record by the name that was there. -/
theorem holds_clear {record r : ρ} (hget : slots.get i = some record) :
    (slots.set i none).Holds r ↔ slots.Holds r ∧ nameOf r ≠ nameOf record := by
  constructor
  · rintro ⟨j, hj⟩
    rcases get_set_some hj with ⟨-, ⟨⟩⟩ | ⟨hji, hj⟩
    exact ⟨⟨j, hj⟩, fun hname => hji (slot_unique hn h hj hget hname)⟩
  · rintro ⟨⟨j, hj⟩, hne⟩
    refine ⟨j, ?_⟩
    rw [get_set_other _ _ (fun hji => hne ?_)]
    · exact hj
    · rw [hji, hget, Option.some.injEq] at hj
      rw [hj]

/-- Rewriting one record. -/
theorem holds_replace {record new r : ρ} (hget : slots.get i = some record) :
    (slots.set i (some new)).Holds r ↔ r = new ∨ slots.Holds r ∧ nameOf r ≠ nameOf record := by
  have hlt := lt_of_get_some hget
  have hfree : (slots.set i none).get i = none := get_set_self _ _ hlt
  rw [← set_set slots i none (some new), holds_set_some hlt hfree,
    holds_clear hn h hget]

/-- A record's name was given out. -/
theorem given_of_get (hget : slots.get i = some record) :
    Given slots generations nameOf (nameOf record) := by
  have hlt := lt_of_get_some hget
  refine ⟨i, ?_, .inr ⟨?_, record, hget, rfl⟩⟩
  · rw [h i record hget, slotOf_name _ hlt hn]
  · rw [h i record hget, generationOf_name _ (by omega)]

end Named

variable {slots slots' : Slots n (Option ρ)} {generations generations' : Slots n UInt16}
  {nameOf : ρ → UInt32}

theorem named_set_some (h : Named slots generations nameOf)
    (hname : nameOf record = name i (generations.get i)) :
    Named (slots.set i (some record)) generations nameOf := by
  intro j r hj
  rcases get_set_some hj with ⟨rfl, ⟨⟩⟩ | ⟨-, hj⟩
  · exact hname
  · exact h j r hj

/-- An empty slot may have any generation. -/
theorem named_clear (h : Named slots generations nameOf) (i : Nat) (generation : UInt16) :
    Named (slots.set i none) (generations.set i generation) nameOf := by
  intro j r hj
  rcases get_set_some hj with ⟨-, ⟨⟩⟩ | ⟨hji, hj⟩
  rw [get_set_other _ _ hji]
  exact h j r hj

variable {r : ρ → ρ → Prop}

/-- Rewriting records in place, by the same names. -/
theorem named_rel (h : Named slots generations nameOf) (hr : ∀ a b, r a b → nameOf b = nameOf a)
    (hrel : ∀ i, Option.Rel r (slots.get i) (slots'.get i)) : Named slots' generations nameOf := by
  intro i record' hget'
  rcases rel_some_right (hrel i) hget' with ⟨record, hget, hsame⟩
  rw [hr _ _ hsame, h i record hget]

/-- The name a free slot offers has not been given out. -/
theorem not_given_of_free (hn : n < 65536) (hlt : i < n) (hfree : slots.get i = none) :
    ¬ Given slots generations nameOf (name i (generations.get i)) := by
  rintro ⟨j, hslot, hgiven⟩
  rw [slotOf_name _ hlt hn, Option.some.injEq] at hslot
  subst hslot
  rcases hgiven with hlater | ⟨-, record, hget, -⟩
  · rw [generationOf_name _ (by omega)] at hlater
    omega
  · rw [hfree] at hget
    cases hget

/-- A record written under the name its slot offers is found by it. -/
theorem locate_set (hn : n < 65536) (hlt : i < n)
    (hname : nameOf record = name i (generations.get i)) :
    locate (slots.set i (some record)) generations nameOf (nameOf record) = some (i, record) := by
  refine locate_eq_some.mpr ⟨?_, ?_, get_set_self _ _ hlt, rfl⟩
  · rw [hname]
    exact slotOf_name _ hlt hn
  · rw [hname]
    exact (generationOf_name _ (by omega)).symm

/-- A record put into a free slot takes a name that had not been given out. -/
theorem given_set (hn : n < 65536) (hlt : i < n) (hfree : slots.get i = none)
    (hname : nameOf record = name i (generations.get i)) :
    ¬ Given slots generations nameOf (name i (generations.get i)) ∧
      Given (slots.set i (some record)) generations nameOf (name i (generations.get i)) := by
  refine ⟨not_given_of_free hn hlt hfree, i, slotOf_name _ hlt hn, .inr ⟨?_, record,
    get_set_self _ _ hlt, hname⟩⟩
  exact (generationOf_name _ (by omega)).symm

theorem given_evolves (he : Evolves slots slots' generations generations' nameOf)
    (h : Given slots generations nameOf raw) : Given slots' generations' nameOf raw := by
  rcases h with ⟨i, hslot, hgiven⟩
  refine ⟨i, hslot, ?_⟩
  rcases he i with hrises | ⟨hsame, hkept⟩
  · -- The slot moves past whatever name it had.
    left
    rcases hgiven with hlater | ⟨hcurrent, -⟩
    · omega
    · rw [← hcurrent]
      exact hrises
  · rw [hsame]
    rcases hgiven with hlater | ⟨hcurrent, record, hget, rfl⟩
    · exact .inl hlater
    · exact .inr ⟨hcurrent, hkept record hget⟩

theorem retired_evolves (he : Evolves slots slots' generations generations' nameOf)
    (h : Retired generations raw) : Retired generations' raw := by
  rcases h with ⟨i, hslot, hlater⟩
  refine ⟨i, hslot, ?_⟩
  rcases he i with hrises | ⟨hsame, -⟩
  · omega
  · rw [hsame]
    exact hlater

theorem evolves_rel (hr : ∀ a b, r a b → nameOf b = nameOf a)
    (hrel : ∀ i, Option.Rel r (slots.get i) (slots'.get i)) :
    Evolves slots slots' generations generations nameOf := by
  refine fun i => .inr ⟨rfl, fun record hget => ?_⟩
  rcases rel_some_left (hrel i) hget with ⟨record', hget', hsame⟩
  exact ⟨record', hget', hr _ _ hsame⟩

theorem evolves_set_some (hlt : i < n) (hfree : slots.get i = none) :
    Evolves slots (slots.set i (some record)) generations generations nameOf := by
  refine fun j => .inr ⟨rfl, fun r hget => ⟨r, ?_, rfl⟩⟩
  rw [get_set _ _ hlt, if_neg fun hji => by rw [hji, hfree] at hget; cases hget]
  exact hget

/-- A slot is emptied and its generation goes up. -/
theorem evolves_clear (hlt : i < n) (hsucc : checkedSucc (generations.get i) = some generation) :
    Evolves slots (slots.set i none) generations (generations.set i generation) nameOf := by
  intro j
  by_cases hji : j = i
  · left
    rw [hji, get_set_self _ _ hlt, checkedSucc_eq_some.mp hsucc]
    exact Nat.lt_succ_self _
  · right
    rw [get_set_other _ _ hji]
    refine ⟨rfl, fun r hget => ⟨r, ?_, rfl⟩⟩
    rw [get_set_other _ _ hji]
    exact hget

/-- Emptying a slot and raising its generation retires the name of its
    record. -/
theorem retired_clear (hn : n < 65536) (h : Named slots generations nameOf) {record : ρ}
    (hget : slots.get i = some record) (hsucc : checkedSucc (generations.get i) = some generation) :
    Retired (generations.set i generation) (nameOf record) := by
  have hlt := lt_of_get_some hget
  refine ⟨i, ?_, ?_⟩
  · rw [h i record hget]
    exact slotOf_name _ hlt hn
  · rw [h i record hget, generationOf_name _ (by omega), get_set_self _ _ hlt,
      checkedSucc_eq_some.mp hsucc]
    exact Nat.lt_succ_self _

/-- A retired name leads nowhere. -/
theorem locate_retired (h : Retired generations raw) :
    locate slots generations nameOf raw = none := by
  rcases h with ⟨i, hslot, hlater⟩
  rw [Option.eq_none_iff_forall_ne_some]
  rintro ⟨j, record⟩ hsome
  rcases locate_eq_some.mp hsome with ⟨hslot', hgeneration, -⟩
  rw [hslot, Option.some.injEq] at hslot'
  subst hslot'
  rw [hgeneration] at hlater
  omega

end Table

end Arena

end Norx
