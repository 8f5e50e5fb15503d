import Norx.Wasm.Cursor

/-!
# What a LEB128 Number Stands For

The readers of `Cursor` against the arithmetic of the format. `encoding` cuts
the digits of one number off the front of a byte string, and `unsigned` and
`signed` are what the digits stand for, as exact numbers.

`leb_u32` is exact: the fifth digit is checked for the bits that do not fit.
The signed readers have no such check. They take any fifth or tenth digit and
drop the bits that do not fit, so a number that has no place in the result type
is accepted as a number that does.

## Main definitions

* `encoding`: The digits of the number a byte string starts with.
* `unsigned`, `signed`: What digits stand for.

## Theorems

* `lebSignedLoop_eq`, `lebU32Loop_eq`: What the readers accept and return.
* `lebU32_leb`, `lebSigned_leb`: What they read has the shape of a number.
* `leb_exact_iff`: When they are exact.
* `lebI32_truncates`: A number of 35 bits that is read as zero.
-/

namespace Norx

namespace Wasm

namespace Cursor

open List Option

/-- The digits of the number the bytes start with. -/
def encoding : List UInt8 → Option (List UInt8)
  | [] => none
  | byte :: rest =>
    if byte &&& 0x80 = 0 then some [byte] else (encoding rest).map (byte :: ·)

def unsigned : List UInt8 → Nat
  | [] => 0
  | byte :: rest => byte.toNat % 128 + 128 * unsigned rest

/-- The last digit counts from -64 to 63. -/
def signed : List UInt8 → Int
  | [] => 0
  | [byte] => if byte.toNat % 128 < 64 then byte.toNat % 128 else byte.toNat % 128 - 128
  | byte :: rest => byte.toNat % 128 + 128 * signed rest

/-- The signed number has a place in `width` bits. -/
def Fits (width : Nat) (digits : List UInt8) : Prop :=
  -2 ^ (width - 1) ≤ signed digits ∧ signed digits < 2 ^ (width - 1)

instance (width : Nat) (digits : List UInt8) : Decidable (Fits width digits) :=
  inferInstanceAs (Decidable (_ ∧ _))

/-- The bit operations of the readers, as arithmetic on one byte. -/
theorem digit_bits (byte : UInt8) : (byte &&& 0x7f).toNat = byte.toNat % 128 ∧
    (byte &&& 0x80 = 0 ↔ byte.toNat < 128) ∧
    (byte &&& 0x40 = 0 ↔ byte.toNat % 128 < 64) := by
  have h : ∀ b : Fin 256, ((UInt8.ofNat b.val) &&& 0x7f).toNat = b.val % 128 ∧
      ((UInt8.ofNat b.val) &&& 0x80 = 0 ↔ b.val < 128) ∧
      ((UInt8.ofNat b.val) &&& 0x40 = 0 ↔ b.val % 128 < 64) := by decide +kernel
  simpa using h ⟨byte.toNat, byte.toNat_lt⟩

variable {width shift : Nat}

/-- Bits above those read so far are added to them. -/
theorem toNat_or_shiftLeft {value : BitVec width} (high : BitVec width) (hshift : shift < width)
    (hvalue : value.toNat < 2 ^ shift) :
    (value ||| (high <<< shift)).toNat = (value.toNat + high.toNat * 2 ^ shift) % 2 ^ width := by
  have hpow : 2 ^ width = 2 ^ (width - shift) * 2 ^ shift := by
    rw [← Nat.pow_add, Nat.sub_add_cancel hshift.le]
  have hhigh : high.toNat * 2 ^ shift % 2 ^ width = 2 ^ shift * (high.toNat % 2 ^ (width - shift)) := by
    rw [hpow, Nat.mul_mod_mul_right, Nat.mul_comm]
  have hor := (value ||| (high <<< shift)).isLt
  rw [BitVec.toNat_or, BitVec.toNat_shiftLeft, Nat.shiftLeft_eq, hhigh, Nat.or_comm,
    ← Nat.two_pow_add_eq_or_of_lt hvalue, ← hhigh] at hor ⊢
  rw [Nat.add_comm value.toNat, ← Nat.mod_add_mod, Nat.mod_eq_of_lt hor]

/-- One more digit is read at the shift, and what does not fit is dropped. -/
theorem or_digit {value : BitVec width} (byte : UInt8) (hshift : shift < width)
    (hvalue : value.toNat < 2 ^ shift) :
    ∃ k, value.toNat + 2 ^ shift * (byte.toNat % 128)
      = (value ||| ((byte &&& 0x7f).toBitVec.setWidth width <<< shift)).toNat + 2 ^ width * k := by
  refine ⟨(value.toNat + 2 ^ shift * (byte.toNat % 128)) / 2 ^ width, ?_⟩
  have hdigit : ((byte &&& 0x7f).toBitVec.setWidth width).toNat = byte.toNat % 128 % 2 ^ width := by
    rw [BitVec.toNat_setWidth, ← (digit_bits byte).1]
    rfl
  rw [toNat_or_shiftLeft _ hshift hvalue, hdigit, ← Nat.add_mod_mod, Nat.mod_mul_mod,
    Nat.add_mod_mod, Nat.mul_comm (byte.toNat % 128), Nat.mod_add_div]

variable {width : Nat}

theorem ofInt_congr {i j : Int} (k : Int) (h : i = j + 2 ^ width * k) :
    BitVec.ofInt width i = BitVec.ofInt width j := by
  apply BitVec.eq_of_toNat_eq
  rw [BitVec.toNat_ofInt, BitVec.toNat_ofInt, h]
  push_cast
  rw [Int.add_mul_emod_self_left]

theorem eq_ofInt {x : BitVec width} {i : Int} (k : Int) (h : i = x.toNat + 2 ^ width * k) :
    x = BitVec.ofInt width i := by
  rw [ofInt_congr k h, BitVec.ofInt_natCast, BitVec.ofNat_toNat, BitVec.setWidth_eq]

/-- Setting the bits from the shift on is a subtraction. -/
theorem or_sign {value : BitVec width} (hvalue : value.toNat < 2 ^ shift) {i : Int} (k : Int)
    (h : i = value.toNat + 2 ^ width * k) :
    (if shift < width then value ||| (BitVec.allOnes width <<< shift) else value)
      = BitVec.ofInt width (i - 2 ^ shift) := by
  by_cases hshift : shift < width
  · have hor := Nat.mod_add_div (value.toNat + (2 ^ width - 1) * 2 ^ shift) (2 ^ width)
    rw [← BitVec.toNat_allOnes, ← toNat_or_shiftLeft _ hshift hvalue, BitVec.toNat_allOnes] at hor
    rw [if_pos hshift]
    zify [Nat.one_le_two_pow] at hor
    exact eq_ofInt (k + (value.toNat + (2 ^ width - 1) * 2 ^ shift) / 2 ^ width - 2 ^ shift)
      (by linear_combination h - hor)
  · obtain ⟨d, rfl⟩ := Nat.exists_eq_add_of_le (Nat.not_lt.mp hshift)
    rw [if_neg hshift]
    exact eq_ofInt (k - 2 ^ d) (by linear_combination h)

theorem encoding_ne_nil {bytes digits : List UInt8} (h : encoding bytes = some digits) :
    digits ≠ [] := by
  rintro rfl
  cases bytes with
  | nil => cases h
  | cons byte rest =>
    simp only [encoding] at h
    split_ifs at h <;> simp at h

theorem signed_cons {byte : UInt8} {digits : List UInt8} (h : digits ≠ []) :
    signed (byte :: digits) = byte.toNat % 128 + 128 * signed digits := by
  cases digits with
  | nil => exact absurd rfl h
  | cons _ _ => rfl

/-- The signed loop, with what has been read below the shift. -/
theorem lebSignedLoop_eq (rest : List UInt8) : ∀ (p shift : Nat)
    (value : BitVec width), value.toNat < 2 ^ shift →
    (lebSignedLoop width rest p shift value).toOption = (encoding rest).bind fun digits =>
      if shift + 7 * digits.length < width + 7 then
        some (BitVec.ofInt width (value.toNat + 2 ^ shift * signed digits), p + digits.length)
      else none := by
  induction rest with
  | nil => intros; rfl
  | cons byte rest ih =>
    intro p shift value hvalue
    by_cases hshift : width ≤ shift
    · simp only [lebSignedLoop, if_pos hshift]
      refine (bind_eq_none_iff.mpr fun digits hdigits => if_neg ?_).symm
      have := length_pos_iff.mpr (encoding_ne_nil hdigits)
      omega
    · rcases or_digit byte (Nat.not_le.mp hshift) hvalue with ⟨k, hread⟩
      simp only [lebSignedLoop, encoding, if_neg hshift]
      generalize value ||| (byte &&& 0x7f).toBitVec.setWidth width <<< shift = value' at hread ⊢
      have hvalue' : value'.toNat < 2 ^ (shift + 7) := by
        have : 2 ^ shift * (byte.toNat % 128) ≤ 2 ^ shift * 127 := Nat.mul_le_mul_left _ (by omega)
        have := Nat.zero_le (2 ^ width * k)
        rw [Nat.pow_add]
        omega
      zify at hread
      by_cases hend : byte &&& 0x80 = 0
      · simp only [if_pos hend, bind_some, length_singleton, signed, ne_eq,
          (digit_bits byte).2.2, if_pos (show shift + 7 * 1 < width + 7 by omega)]
        by_cases hsign : byte.toNat % 128 < 64
        · simp only [hsign, not_true_eq_false, and_false, if_false, if_true]
          rw [← eq_ofInt k hread]
          rfl
        · have hlast := or_sign hvalue' k hread
          simp only [hsign, not_false_eq_true, and_true, if_false]
          rw [show (value.toNat : Int) + 2 ^ shift * (byte.toNat % 128 - 128)
            = value.toNat + 2 ^ shift * (byte.toNat % 128) - 2 ^ (shift + 7) by ring, ← hlast]
          split_ifs <;> rfl
      · -- The digits after this one count 128 times as much.
        simp only [if_neg hend, ih _ _ _ hvalue', bind_map]
        refine bind_congr fun digits hdigits => ?_
        have hsum : BitVec.ofInt width (value'.toNat + 2 ^ (shift + 7) * signed digits)
            = BitVec.ofInt width (value.toNat + 2 ^ shift * signed (byte :: digits)) := by
          rw [signed_cons (encoding_ne_nil hdigits)]
          exact (ofInt_congr k (by linear_combination hread)).symm
        simp only [Function.comp, length_cons, hsum, Nat.mul_succ, Nat.add_assoc, Nat.add_comm 1,
          Nat.add_comm 7]

theorem lebU32Loop_eq (rest : List UInt8) : ∀ (p n : Nat) (value : BitVec 32),
    value.toNat < 2 ^ (7 * n) →
    (lebU32Loop rest p (7 * n) value).toOption = (encoding rest).bind fun digits =>
      if n + digits.length ≤ 5 ∧ value.toNat + 2 ^ (7 * n) * unsigned digits < 2 ^ 32 then
        some (BitVec.ofNat 32 (value.toNat + 2 ^ (7 * n) * unsigned digits), p + digits.length)
      else none := by
  induction rest with
  | nil => intros; rfl
  | cons byte rest ih =>
    intro p n value hvalue
    have hbyte : 0x0f < byte ↔ 15 < byte.toNat := UInt8.lt_iff_toNat_lt
    by_cases hfull : 32 ≤ 7 * n ∨ (7 * n = 28 ∧ 15 < byte.toNat)
    · simp only [lebU32Loop, hbyte, if_pos hfull]
      refine (bind_eq_none_iff.mpr fun digits hdigits => if_neg ?_).symm
      -- There is room for one digit at most, and that has to be below 16.
      rintro ⟨hlength, hsmall⟩
      have hpos := length_pos_iff.mpr (encoding_ne_nil hdigits)
      obtain rfl : n = 4 := by omega
      simp only [encoding, (digit_bits byte).2.1] at hdigits
      split_ifs at hdigits with hend
      · obtain rfl : [byte] = digits := by simpa using hdigits
        simp only [unsigned] at hsmall
        omega
      · rcases map_eq_some_iff.mp hdigits with ⟨digits, hrest, rfl⟩
        have := length_pos_iff.mpr (encoding_ne_nil hrest)
        simp at hlength
        omega
    · have hfits : value.toNat + 2 ^ (7 * n) * (byte.toNat % 128) < 2 ^ 32 := by
        have : n ≤ 4 := by omega
        interval_cases n <;> simp at hvalue hfull ⊢ <;> omega
      rcases @or_digit 32 (7 * n) value byte (by omega) hvalue with ⟨k, hread⟩
      simp only [lebU32Loop, encoding, hbyte, if_neg hfull]
      generalize value ||| (byte &&& 0x7f).toBitVec.setWidth 32 <<< (7 * n) = value' at hread ⊢
      obtain rfl : k = 0 := by omega
      by_cases hend : byte &&& 0x80 = 0
      · simp only [if_pos hend, bind_some, length_singleton, unsigned, Nat.mul_zero,
          Nat.add_zero, hread, value'.isLt, and_true, BitVec.ofNat_toNat, BitVec.setWidth_eq]
        rw [if_pos (by omega)]
        rfl
      · have hvalue' : value'.toNat < 2 ^ (7 * (n + 1)) := by
          have : 2 ^ (7 * n) * (byte.toNat % 128) ≤ 2 ^ (7 * n) * 127 :=
            Nat.mul_le_mul_left _ (by omega)
          rw [Nat.mul_succ, Nat.pow_add]
          omega
        have hsum (digits : List UInt8) : value'.toNat + 2 ^ (7 * (n + 1)) * unsigned digits
            = value.toNat + 2 ^ (7 * n) * unsigned (byte :: digits) := by
          rw [unsigned]
          linear_combination -hread
        rw [if_neg hend, if_neg hend, bind_map]
        refine (ih (p + 1) (n + 1) value' hvalue').trans ?_
        simp only [Function.comp_def, length_cons, hsum, Nat.add_assoc, Nat.add_comm 1]

variable {bytes : List UInt8}

/-- The digits are those of a number that ends within the bytes. -/
theorem leb_of_encoding (rest : List UInt8) : ∀ {digits : List UInt8} {p : Nat},
    bytes.drop p = rest → encoding rest = some digits → Leb bytes p (p + digits.length) := by
  induction rest with
  | nil => exact fun _ h => nomatch h
  | cons byte rest ih =>
    intro digits p hdrop h
    have hbyte : bytes[p]? = some byte := by rw [← List.head?_drop, hdrop, List.head?_cons]
    have htail : bytes.drop (p + 1) = rest := by rw [← tail_drop, hdrop, tail_cons]
    rw [encoding] at h
    split_ifs at h with hend
    · cases h
      exact Leb.last hbyte hend
    · rcases map_eq_some_iff.mp h with ⟨digits, hrest, rfl⟩
      have hleb := ih htail hrest
      rw [Nat.add_right_comm] at hleb
      exact Leb.more hbyte hend hleb

variable {p p' : Nat}

/-- What a reader that returns what the digits say has read is a number. -/
theorem leb_of_bind {α : Type} {a : α} {c : List UInt8 → Prop} [DecidablePred c]
    {f : List UInt8 → α} {r : Except Error (α × Nat)}
    (heq : r.toOption = (encoding (bytes.drop p)).bind fun digits => if c digits then some (f digits, p + digits.length) else none)
    (h : r = .ok (a, p')) : Leb bytes p p' := by
  rw [h] at heq
  rcases bind_eq_some_iff.mp heq.symm with ⟨digits, hdigits, hread⟩
  split_ifs at hread
  cases hread
  exact leb_of_encoding _ rfl hdigits

theorem lebU32_leb {value : BitVec 32} (h : lebU32 bytes p = .ok (value, p')) :
    Leb bytes p p' :=
  leb_of_bind (lebU32Loop_eq _ p 0 0 (by decide)) h

theorem lebSigned_leb {value : BitVec width} (h : lebSigned width bytes p = .ok (value, p')) :
    Leb bytes p p' :=
  leb_of_bind (lebSignedLoop_eq _ p 0 0 (by simp)) h

/-- What `leb_u32` should return: the number the bytes start with, if it has at
    most five digits and a place in the result. -/
def exactU32 (bytes : List UInt8) (p : Nat) : Option (BitVec 32 × Nat) :=
  (encoding (bytes.drop p)).bind fun digits =>
    if digits.length ≤ 5 ∧ unsigned digits < 2 ^ 32 then
      some (BitVec.ofNat 32 (unsigned digits), p + digits.length)
    else none

/-- The same for a signed reader of `width` bits. -/
def exactSigned (width most : Nat) (bytes : List UInt8) (p : Nat) :
    Option (BitVec width × Nat) :=
  (encoding (bytes.drop p)).bind fun digits =>
    if digits.length ≤ most ∧ Fits width digits then
      some (BitVec.ofInt width (signed digits), p + digits.length)
    else none

/-- A signed reader is exact where it is given no number that does not fit. -/
theorem lebSigned_exact_iff {width most : Nat} (hmost : ∀ n, 7 * n < width + 7 ↔ n ≤ most)
    (bytes : List UInt8) (p : Nat) :
    (lebSigned width bytes p).toOption = exactSigned width most bytes p ↔
      ∀ digits, encoding (bytes.drop p) = some digits → digits.length ≤ most →
        Fits width digits := by
  rw [lebSigned, lebSignedLoop_eq _ _ _ _ (by simp), exactSigned]
  cases encoding (bytes.drop p) with
  | none => simp
  | some digits =>
    by_cases hlength : digits.length ≤ most
    · by_cases hfits : Fits width digits <;> simp [hmost, hlength, hfits]
    · simp [hmost, hlength]

/-- `leb_u32` is exact. `leb_i32` and `leb_i64` are exact at a position exactly
    if there is no number there of at most five or ten digits that does not fit. -/
theorem leb_exact_iff (bytes : List UInt8) (p : Nat) :
    (lebU32 bytes p).toOption = exactU32 bytes p ∧
    ((lebI32 bytes p).toOption = exactSigned 32 5 bytes p ↔
      ∀ digits, encoding (bytes.drop p) = some digits → digits.length ≤ 5 → Fits 32 digits) ∧
    ((lebI64 bytes p).toOption = exactSigned 64 10 bytes p ↔
      ∀ digits, encoding (bytes.drop p) = some digits → digits.length ≤ 10 → Fits 64 digits) := by
  refine ⟨?_, lebSigned_exact_iff (by omega) bytes p, lebSigned_exact_iff (by omega) bytes p⟩
  rw [lebU32, exactU32]
  refine (lebU32Loop_eq _ p 0 0 (by decide)).trans ?_
  simp

/-- Five digits that stand for `-2 ^ 32` are read as zero. -/
theorem lebI32_truncates : (lebI32 [0x80, 0x80, 0x80, 0x80, 0x70] 0).toOption = some (0, 5) ∧
    signed [0x80, 0x80, 0x80, 0x80, 0x70] = -2 ^ 32 ∧
    exactSigned 32 5 [0x80, 0x80, 0x80, 0x80, 0x70] 0 = none := by decide

end Cursor

end Wasm

end Norx
