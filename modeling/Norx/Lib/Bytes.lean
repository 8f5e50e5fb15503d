import Mathlib

/-!
# Numbers in Bytes

Little-endian numbers: the number a list of bytes stands for and the bytes of a
number. A store is a function from addresses to bytes, read and written a block
at a time; blocks that do not overlap do not see each other's writes.

## Main definitions

* `leNat`, `leBytes`: The number of some bytes, and the bytes of a number.
* `Store`: Bytes by address.
* `Store.read`, `Store.write`, `Store.fill`, `Store.copy`: A block of a store.

## Theorems

* `Store.write_self`, `Store.write_other`: Reading a block back.
-/

namespace Norx

/-- The number that bytes stand for, lowest byte first. -/
def leNat (bytes : List UInt8) : Nat := Nat.ofDigits 256 (bytes.map UInt8.toNat)

/-- The lowest `n` bytes of a number, lowest first. -/
def leBytes : Nat → Nat → List UInt8
  | 0, _ => []
  | n + 1, v => UInt8.ofNat v :: leBytes n (v / 256)

theorem leNat_cons (b : UInt8) (bs : List UInt8) : leNat (b :: bs) = b.toNat + 256 * leNat bs := by
  rfl

theorem leNat_lt (bytes : List UInt8) : leNat bytes < 256 ^ bytes.length := by
  have hdigits : ∀ d ∈ bytes.map UInt8.toNat, d < 256 := by
    intro d hd
    rcases List.mem_map.mp hd with ⟨b, _, rfl⟩
    exact b.toNat_lt
  have hlt := Nat.ofDigits_lt_base_pow_length (by decide : 1 < 256) hdigits
  rwa [List.length_map] at hlt

theorem leBytes_length (n v : Nat) : (leBytes n v).length = n := by
  induction n generalizing v with
  | zero => rfl
  | succ n ih => rw [leBytes, List.length_cons, ih]

theorem leNat_leBytes (n v : Nat) : leNat (leBytes n v) = v % 256 ^ n := by
  induction n generalizing v with
  | zero =>
    rw [pow_zero, Nat.mod_one]
    rfl
  | succ n ih =>
    have hlow : (UInt8.ofNat v).toNat = v % 256 := UInt8.toNat_ofNat'
    rw [leBytes, leNat_cons, ih, hlow, pow_succ', Nat.mod_mul]

/-- The part of a slice from one index to another, if it is one. -/
def getRange (bytes : List UInt8) (start end_ : Nat) : Option (List UInt8) :=
  if start ≤ end_ ∧ end_ ≤ bytes.length then some ((bytes.drop start).take (end_ - start)) else none

/-- Bytes by address. -/
abbrev Store := Nat → UInt8

namespace Store

/-- The `n` bytes from an address on. -/
def read (m : Store) (a n : Nat) : List UInt8 := (List.range n).map fun i => m (a + i)

/-- Write bytes from an address on. -/
def write (m : Store) (a : Nat) (bytes : List UInt8) : Store := fun b =>
  if a ≤ b ∧ b < a + bytes.length then bytes.getD (b - a) 0 else m b

/-- Write the same byte `n` times. -/
def fill (m : Store) (a n : Nat) (byte : UInt8) : Store := fun b =>
  if a ≤ b ∧ b < a + n then byte else m b

/-- Copy `n` bytes from one address to another. -/
def copy (m : Store) (source a n : Nat) : Store := fun b =>
  if a ≤ b ∧ b < a + n then m (source + (b - a)) else m b

variable {a : Nat} {bytes : List UInt8} {b : Nat}

theorem write_other (m : Store) (h : b < a ∨ a + bytes.length ≤ b) : m.write a bytes b = m b := by
  rw [write, if_neg (by omega)]

theorem fill_other (m : Store) {n : Nat} {byte : UInt8} (h : b < a ∨ a + n ≤ b) :
    m.fill a n byte b = m b := by
  rw [fill, if_neg (by omega)]

theorem fill_self (m : Store) {n : Nat} {byte : UInt8} (hle : a ≤ b) (hlt : b < a + n) :
    m.fill a n byte b = byte := by
  rw [fill, if_pos ⟨hle, hlt⟩]

theorem write_self (m : Store) {i : Nat} (hi : i < bytes.length) :
    m.write a bytes (a + i) = bytes[i] := by
  rw [write, if_pos (by omega), Nat.add_sub_cancel_left, List.getD_eq_getElem?_getD,
    List.getElem?_eq_getElem hi, Option.getD_some]

theorem write_nil (m : Store) (a : Nat) : m.write a [] = m :=
  funext fun b => if_neg (by rw [List.length_nil]; omega)

/-- Two writes, one right after the other. -/
theorem write_append (m : Store) (a : Nat) (bytes bytes' : List UInt8) :
    (m.write a bytes).write (a + bytes.length) bytes' = m.write a (bytes ++ bytes') := by
  funext b
  simp [write, List.getD_eq_getElem?_getD]
  by_cases hsecond : a + bytes.length ≤ b ∧ b < a + bytes.length + bytes'.length
  · rw [if_pos hsecond, if_pos (by omega), List.getElem?_append_right (by omega)]
    congr 2
    omega
  · rw [if_neg hsecond]
    by_cases hfirst : a ≤ b ∧ b < a + bytes.length
    · rw [if_pos hfirst, if_pos (by omega), List.getElem?_append_left (by omega)]
    · rw [if_neg hfirst, if_neg (by omega)]

end Store

end Norx
