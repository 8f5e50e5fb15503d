import Mathlib

/-!
# Cutting UTF-8 at an ASCII Byte

A byte string that is the encoding of some text, and what can be cut out of it.
Every byte of a character outside ASCII has its top bit set, so an ASCII byte is
never in the middle of a character: what is before it and what is after it are
both text again.

## Main definitions

* `Utf8`: The bytes are the encoding of some text.

## Theorems

* `encode_block`: The bytes of one character.
* `utf8_split`: Cutting text at an ASCII byte leaves text.
-/

namespace Norx

open List

/-- The bytes are the encoding of some text. -/
def Utf8 (bytes : List UInt8) : Prop :=
  ∃ text : List Char, bytes = text.flatMap String.utf8EncodeChar

theorem utf8_nil : Utf8 [] := ⟨[], rfl⟩

theorem utf8_append {bytes bytes' : List UInt8} (h : Utf8 bytes) (h' : Utf8 bytes') :
    Utf8 (bytes ++ bytes') := by
  rcases h with ⟨text, rfl⟩
  rcases h' with ⟨text', rfl⟩
  exact ⟨text ++ text', flatMap_append.symm⟩

/-- The library's check of a byte array decides it. -/
theorem validateUTF8_iff (bytes : List UInt8) :
    bytes.toByteArray.validateUTF8 = true ↔ Utf8 bytes := by
  rw [ByteArray.validateUTF8_eq_true_iff]
  constructor
  · rintro ⟨text, htext⟩
    exact ⟨text, toByteArray_inj.mp htext⟩
  · rintro ⟨text, rfl⟩
    exact ⟨text, rfl⟩

instance (bytes : List UInt8) : Decidable (Utf8 bytes) :=
  decidable_of_iff _ (validateUTF8_iff bytes)

/-- A character is one byte, or several that are all outside ASCII. -/
theorem encode_block (c : Char) :
    (∃ b, String.utf8EncodeChar c = [b]) ∨ ∀ b ∈ String.utf8EncodeChar c, 128 ≤ b.toNat := by
  have hbyte : ∀ n, 128 ≤ n → n < 256 → 128 ≤ (UInt8.ofNat n).toNat := by
    intro n hle hlt
    rw [UInt8.toNat_ofNat']
    omega
  have hsome : ∀ l : List Nat, (∀ n ∈ l, 128 ≤ n ∧ n < 256) →
      ∀ b ∈ l.map UInt8.ofNat, 128 ≤ b.toNat := by
    intro l hl b hb
    rcases mem_map.mp hb with ⟨n, hn, rfl⟩
    exact hbyte n (hl n hn).1 (hl n hn).2
  unfold String.utf8EncodeChar
  extract_lets v
  by_cases h₁ : v ≤ 127
  · rw [if_pos h₁]
    exact .inl ⟨_, rfl⟩
  · refine .inr ?_
    split_ifs
    · refine hsome [v / 64 % 32 + 192, v % 64 + 128] ?_
      simp
      omega
    · refine hsome [v / 4096 % 16 + 224, v / 64 % 64 + 128, v % 64 + 128] ?_
      simp
      omega
    · refine hsome [v / 262144 % 8 + 240, v / 4096 % 64 + 128, v / 64 % 64 + 128, v % 64 + 128] ?_
      simp
      omega

/-- Cutting text at an ASCII byte leaves text on either side. -/
theorem utf8_split {b : UInt8} (hb : b.toNat < 128) {bytes rest : List UInt8}
    (h : Utf8 (bytes ++ b :: rest)) : Utf8 bytes ∧ Utf8 rest := by
  rcases h with ⟨text, htext⟩
  -- Character by character: the byte is in a later one, or is one itself.
  induction text generalizing bytes with
  | nil => exact absurd htext (append_ne_nil_of_right_ne_nil _ (cons_ne_nil _ _))
  | cons c text ih =>
    have hfirst : Utf8 (String.utf8EncodeChar c) := ⟨[c], (flatMap_singleton _ c).symm⟩
    rw [flatMap_cons] at htext
    rcases append_eq_append_iff.mp htext with ⟨more, hchar, hrest⟩ | ⟨more, rfl, hrest⟩
    · cases more with
      | nil =>
        rw [append_nil] at hchar
        rw [← hchar]
        exact ⟨hfirst, (@ih [] hrest).2⟩
      | cons b' more =>
        obtain ⟨rfl, rfl⟩ := List.cons.inj hrest
        rcases encode_block c with ⟨b', hone⟩ | hhigh
        · rw [hone, singleton_eq_append_iff] at hchar
          simp at hchar
          rw [hchar.1, hchar.2.2]
          exact ⟨utf8_nil, text, rfl⟩
        · refine absurd (hhigh b ?_) (Nat.not_le.mpr hb)
          rw [hchar]
          exact mem_append_right _ mem_cons_self
    · rcases ih hrest.symm with ⟨hmore, hrest⟩
      exact ⟨utf8_append hfirst hmore, hrest⟩

end Norx
