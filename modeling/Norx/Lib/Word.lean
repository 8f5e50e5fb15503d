import Mathlib

/-!
# Arithmetic on 64-Bit Words

The additions and multiplications of a machine word that do not wrap: the
checked addition, which fails where the sum does not fit, and the saturating
operations, which stop at the largest word. Each is described by what it is on
natural numbers, so that a proof about addresses can leave the words behind at
the first step.

`clearLow` is the mask that takes an address down to a multiple of a power of
two.

## Main definitions

* `checkedAdd`: Addition that fails on overflow.
* `saturatingAdd`, `saturatingMul`: Arithmetic that stops at the largest word.
* `clearLow`: A word with its low bits cleared.
* `isPowerOfTwo`: The test for a single bit.

## Theorems

* `clearLow_toNat`: Clearing low bits rounds down.
-/

namespace Norx

namespace Word

def checkedAdd (a b : UInt64) : Option UInt64 :=
  if a.toNat + b.toNat < 2 ^ 64 then some (a + b) else none

def saturatingAdd (a b : UInt64) : UInt64 :=
  if a.toNat + b.toNat < 2 ^ 64 then a + b else 0xffffffffffffffff

def saturatingMul (a b : UInt64) : UInt64 :=
  if a.toNat * b.toNat < 2 ^ 64 then a * b else 0xffffffffffffffff

/-- Whether a number is a power of two, by the test on its bits. -/
def isPowerOfTwo (value : Nat) : Bool := decide (value ≠ 0 ∧ value &&& (value - 1) = 0)

/-- The word with its low `k` bits cleared. -/
def clearLow (k : Nat) (a : UInt64) : UInt64 := a &&& ~~~ (UInt64.ofNat (2 ^ k) - 1)

theorem checkedAdd_eq_some {a b c : UInt64} :
    checkedAdd a b = some c ↔ c.toNat = a.toNat + b.toNat := by
  have hc := c.toNat_lt
  rw [checkedAdd]
  by_cases hfits : a.toNat + b.toNat < 2 ^ 64
  · rw [if_pos hfits, Option.some.injEq, ← UInt64.toNat_inj, UInt64.toNat_add,
      Nat.mod_eq_of_lt hfits]
    exact eq_comm
  · rw [if_neg hfits]
    simp
    omega

theorem checkedAdd_eq_none {a b : UInt64} :
    checkedAdd a b = none ↔ 2 ^ 64 ≤ a.toNat + b.toNat := by
  rw [checkedAdd]
  simp

theorem saturatingAdd_toNat (a b : UInt64) :
    (saturatingAdd a b).toNat = min (a.toNat + b.toNat) (2 ^ 64 - 1) := by
  rw [saturatingAdd]
  by_cases hfits : a.toNat + b.toNat < 2 ^ 64
  · rw [if_pos hfits, UInt64.toNat_add]
    omega
  · rw [if_neg hfits]
    change 2 ^ 64 - 1 = _
    omega

theorem saturatingMul_toNat (a b : UInt64) :
    (saturatingMul a b).toNat = min (a.toNat * b.toNat) (2 ^ 64 - 1) := by
  rw [saturatingMul]
  by_cases hfits : a.toNat * b.toNat < 2 ^ 64
  · rw [if_pos hfits, UInt64.toNat_mul]
    omega
  · rw [if_neg hfits]
    change 2 ^ 64 - 1 = _
    omega

/-- Clearing the low bits rounds down to a multiple of their power of two. -/
theorem clearLow_toNat {k : Nat} (hk : k < 64) (a : UInt64) :
    (clearLow k a).toNat = a.toNat / 2 ^ k * 2 ^ k := by
  have ha := a.toNat_lt
  have hpow : 2 ^ k < 2 ^ 64 := Nat.pow_lt_pow_right (by omega) hk
  have hmask : (UInt64.ofNat (2 ^ k) - 1).toNat = 2 ^ k - 1 := by
    have hone : (1 : UInt64) ≤ UInt64.ofNat (2 ^ k) := by
      rw [UInt64.le_iff_toNat_le, UInt64.toNat_ofNat_of_lt' hpow]
      exact Nat.one_le_two_pow
    rw [UInt64.toNat_sub_of_le _ _ hone, UInt64.toNat_ofNat_of_lt' hpow, UInt64.toNat_one]
  -- Bit by bit: below `k` both are zero, from `k` on both are the bits of `a`.
  apply Nat.eq_of_testBit_eq
  intro i
  rw [clearLow, UInt64.toNat_and, Nat.testBit_and, UInt64.toNat_not, hmask,
    Nat.testBit_mul_two_pow]
  rw [show UInt64.size - 1 - (2 ^ k - 1) = 2 ^ 64 - ((2 ^ k - 1) + 1) from by
    rw [UInt64.size]; omega, Nat.testBit_two_pow_sub_succ (by omega), Nat.testBit_two_pow_sub_one]
  by_cases hi : k ≤ i
  · have hback : i - k + k = i := Nat.sub_add_cancel hi
    have hnot : ¬ i < k := Nat.not_lt.mpr hi
    simp only [hi, hnot, decide_true, decide_false, Bool.not_false, Bool.and_true, Bool.true_and,
      Nat.testBit_div_two_pow, hback]
    by_cases hlow : i < 64
    · simp [hlow]
    · have hzero : a.toNat.testBit i = false :=
        Nat.testBit_lt_two_pow (Nat.lt_of_lt_of_le ha (Nat.pow_le_pow_right (by omega) (by omega)))
      rw [hzero, Bool.false_and]
  · have hlow : i < k := Nat.not_le.mp hi
    simp [hi, hlow]

theorem toNat_min (a b : UInt64) : (min a b).toNat = min a.toNat b.toNat := by
  change (if a ≤ b then a else b).toNat = _
  split_ifs with h
  · rw [UInt64.le_iff_toNat_le] at h
    omega
  · rw [UInt64.le_iff_toNat_le] at h
    omega

theorem toNat_max (a b : UInt64) : (max a b).toNat = max a.toNat b.toNat := by
  change (if a ≤ b then b else a).toNat = _
  split_ifs with h
  · rw [UInt64.le_iff_toNat_le] at h
    omega
  · rw [UInt64.le_iff_toNat_le] at h
    omega

end Word

end Norx
