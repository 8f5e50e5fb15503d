import Norx.Space.Ops

/-!
# Reaching Physical Memory

What the two paging modules do when a frame is zeroed or written. A frame the
module has no pointer to is left alone, and the call says so; the callers do not
always look.

## Theorems

* `writeFrame_cases`: Writing to one.
-/

namespace Norx

namespace Space

open Fallible List

/-- The paging module has a pointer to the frame. -/
def Addressable (target : Machine) (h : Hardware) (frame : UInt64) : Prop :=
  match target with
  | .x86_64 => h.directMapReady = true ∧ frame.toNat < 2 ^ 24
  | .aarch64 => frame.toNat < 2 ^ 48

instance (target : Machine) (h : Hardware) (frame : UInt64) :
    Decidable (Addressable target h frame) := by
  cases target
  · exact inferInstanceAs (Decidable (_ ∧ _))
  · exact inferInstanceAs (Decidable (_ < _))

theorem addressable_of_ready {target : Machine} {h h' : Hardware} {frame : UInt64}
    (hready : h'.directMapReady = h.directMapReady) (haddress : Addressable target h frame) :
    Addressable target h' frame := by
  cases target with
  | x86_64 => exact ⟨hready.trans haddress.1, haddress.2⟩
  | aarch64 => exact haddress

/-- An address in the page of a frame. -/
def InPage (frame : UInt64) (address : Nat) : Prop :=
  frame.toNat ≤ address ∧ address < frame.toNat + 4096

theorem inPage_unique {f g : UInt64} (hf : f.toNat % 4096 = 0) (hg : g.toNat % 4096 = 0)
    {address : Nat} (h : InPage f address) (h' : InPage g address) : f = g := by
  refine UInt64.toNat_inj.mp ?_
  unfold InPage at h h'
  omega

/-! ### Pointers -/

section Pointers

open Paging

variable {frame pointer : UInt64}

theorem directMapPtr_eq_some {h : Hardware} :
    X86.directMapPtr h frame = some pointer ↔
      pointer = frame ∧ h.directMapReady = true ∧ frame.toNat < 2 ^ 24 := by
  have hlt : X86.directMapBytes ≤ frame ↔ 2 ^ 24 ≤ frame.toNat := UInt64.le_iff_toNat_le
  unfold X86.directMapPtr
  rw [Option.ite_none_left_eq_some, hlt, not_or, Nat.not_le, Bool.not_eq_false, Option.some.injEq]
  constructor
  · rintro ⟨⟨hready, hlow⟩, rfl⟩
    exact ⟨rfl, hready, hlow⟩
  · rintro ⟨rfl, hready, hlow⟩
    exact ⟨⟨hready, hlow⟩, rfl⟩

/-- The bits above the 48 of a physical address. -/
theorem and_not_physicalMask (address : UInt64) :
    address &&& ~~~ Aarch64.physicalMask = 0 ↔ address.toNat < 2 ^ 48 := by
  have hmask : Aarch64.physicalMask = UInt64.ofNat (2 ^ 48) - 1 := by decide
  have hhigh : (address &&& ~~~ Aarch64.physicalMask).toNat = address.toNat / 2 ^ 48 * 2 ^ 48 := by
    rw [hmask]
    exact Word.clearLow_toNat (by decide) address
  rw [← UInt64.toNat_inj, hhigh]
  change _ * _ = 0 ↔ _
  omega

theorem physicalPtr_eq_some :
    Aarch64.physicalPtr frame = some pointer ↔ pointer = frame ∧ frame.toNat < 2 ^ 48 := by
  unfold Aarch64.physicalPtr
  rw [Option.ite_none_right_eq_some, and_not_physicalMask, Option.some.injEq]
  constructor
  · rintro ⟨hlow, rfl⟩
    exact ⟨rfl, hlow⟩
  · rintro ⟨rfl, hlow⟩
    exact ⟨hlow, rfl⟩

end Pointers

/-! ### Zeroing and writing -/

section Access

variable {target : Machine} {h : Hardware} {frame : UInt64}

theorem zeroFrame_addressable (haddress : Addressable target h frame) :
    zeroFrame target frame h = (true, h.zeroPage frame) := by
  cases target with
  | x86_64 =>
    have hptr := directMapPtr_eq_some.mpr ⟨rfl, haddress⟩
    simp only [zeroFrame, Paging.X86.zeroPhysicalPage, hptr]
  | aarch64 =>
    have hptr := physicalPtr_eq_some.mpr ⟨rfl, haddress⟩
    simp only [zeroFrame, Paging.Aarch64.zeroPhysicalPage, hptr]

theorem zeroFrame_not_addressable (haddress : ¬ Addressable target h frame) :
    zeroFrame target frame h = (false, h) := by
  cases target with
  | x86_64 =>
    cases hptr : Paging.X86.directMapPtr h frame with
    | none => simp only [zeroFrame, Paging.X86.zeroPhysicalPage, hptr]
    | some pointer => exact absurd (directMapPtr_eq_some.mp hptr).2 haddress
  | aarch64 =>
    cases hptr : Paging.Aarch64.physicalPtr frame with
    | none => simp only [zeroFrame, Paging.Aarch64.zeroPhysicalPage, hptr]
    | some pointer => exact absurd (physicalPtr_eq_some.mp hptr).2 haddress

/-- Zeroing a frame changes nothing outside its page. -/
theorem zeroFrame_other (target : Machine) (h : Hardware) (frame : UInt64) {address : Nat}
    (hout : ¬ InPage frame address) :
    (zeroFrame target frame h).2.memory address = h.memory address := by
  by_cases haddress : Addressable target h frame
  · rw [zeroFrame_addressable haddress]
    exact Store.fill_other h.memory (by unfold InPage at hout; omega)
  · rw [zeroFrame_not_addressable haddress]

theorem zeroFrame_ready (target : Machine) (h : Hardware) (frame : UInt64) :
    (zeroFrame target frame h).2.directMapReady = h.directMapReady := by
  by_cases haddress : Addressable target h frame
  · rw [zeroFrame_addressable haddress]
    rfl
  · rw [zeroFrame_not_addressable haddress]

/-- The memory of a frame written to, from an offset on. -/
def patch (h : Hardware) (frame : UInt64) (offset : Nat) (bytes : List UInt8) : Hardware :=
  { h with memory := h.memory.write (frame.toNat + offset) bytes }

/-- A write is refused, or it is one inside the page of a frame in reach. -/
theorem writeFrame_cases (offset : Nat) (bytes : List UInt8) :
    writeFrame target frame offset bytes h = (false, h) ∨
      (writeFrame target frame offset bytes h = (true, patch h frame offset bytes) ∧
        offset + bytes.length ≤ 4096 ∧ Addressable target h frame) := by
  have hsum := Word.saturatingAdd_toNat frame (UInt64.ofNat offset)
  have hoffset (hlow : offset ≤ 4096) : (UInt64.ofNat offset).toNat = offset :=
    UInt64.toNat_ofNat_of_lt' (by change offset < 2 ^ 64; omega)
  cases target with
  | x86_64 =>
    unfold writeFrame Paging.X86.writePhysical
    by_cases hbounds : 4096 ≤ offset ∨ 4096 - offset < bytes.length
    · simp [if_pos hbounds]
    simp only [if_neg hbounds]
    cases hptr : Paging.X86.directMapPtr h (Word.saturatingAdd frame (UInt64.ofNat offset)) with
    | none => simp
    | some pointer =>
      rcases directMapPtr_eq_some.mp hptr with ⟨rfl, hready, hlow⟩
      refine .inr ⟨?_, by omega, hready, by omega⟩
      simp only [Hardware.writeBytes, patch]
      rw [hsum, hoffset (by omega), Nat.min_eq_left (by omega)]
  | aarch64 =>
    unfold writeFrame Paging.Aarch64.writePhysical
    by_cases hbounds : 4096 < offset ∨ 4096 - offset < bytes.length
    · simp [if_pos hbounds]
    simp only [if_neg hbounds]
    cases hptr : Paging.Aarch64.physicalPtr (Word.saturatingAdd frame (UInt64.ofNat offset)) with
    | none => simp
    | some pointer =>
      rcases physicalPtr_eq_some.mp hptr with ⟨rfl, hlow⟩
      refine .inr ⟨?_, by omega, ?_⟩
      · simp only [Hardware.writeBytes, patch]
        rw [hsum, hoffset (by omega), Nat.min_eq_left (by omega)]
      · change frame.toNat < 2 ^ 48
        omega

/-- Two writes to a frame, one right after the other. -/
theorem patch_append (offset : Nat) (bytes bytes' : List UInt8) :
    patch (patch h frame offset bytes) frame (offset + bytes.length) bytes'
      = patch h frame offset (bytes ++ bytes') := by
  unfold patch
  rw [← Nat.add_assoc, Store.write_append]

end Access

/-! ### Filling pages -/

theorem pageOf_le (address : Nat) : pageOf address ≤ address := Nat.div_mul_le_self _ _

theorem lt_pageOf (address : Nat) : address < pageOf address + 4096 := by
  change address < address / 4096 * 4096 + 4096
  omega

/-- The page of an address is the aligned one it is in. -/
theorem pageOf_eq {page address : Nat} (haligned : page % 4096 = 0) (hle : page ≤ address)
    (hlt : address < page + 4096) : pageOf address = page := by
  change address / 4096 * 4096 = page
  omega

/-- An operation that writes to memory only. -/
def HardwareOnly (e e' : Env) : Prop := ∃ hardware, e' = e.setHardware hardware

/-- Bytes have been written one after the other, each to the frame its page is
    mapped to. -/
inductive Copied (target : Machine) : Nat → List UInt8 → Env → Env → Prop
  | nil (address : Nat) (e : Env) : Copied target address [] e e
  | cons {address : Nat} {byte : UInt8} {bytes : List UInt8} {e e' : Env} {mapping : MappingInfo}
      (hmapping : e.space.mapping (pageOf address) = some mapping)
      (hreach : Addressable target e.hardware mapping.physicalFrame)
      (rest : Copied target (address + 1) bytes (e.setHardware (patch e.hardware
        mapping.physicalFrame (address - pageOf address) [byte])) e') :
      Copied target address (byte :: bytes) e e'

/-- Every address of a block is mapped, and the block ends below the last
    address there is. -/
structure Backed (space : AddressSpace) (start length : Nat) : Prop where
  mapped : ∀ address, start ≤ address → address < start + length →
    space.mapping (pageOf address) ≠ none
  fits : start + length < 2 ^ 64

section Filling

variable {target : Machine} {address : Nat} {bytes : List UInt8} {e e₁ e₂ : Env}

theorem HardwareOnly.trans (h : HardwareOnly e e₁) (h' : HardwareOnly e₁ e₂) :
    HardwareOnly e e₂ := by
  rcases h with ⟨hardware, rfl⟩
  rcases h' with ⟨hardware', rfl⟩
  exact ⟨hardware', rfl⟩

theorem Copied.hardwareOnly (h : Copied target address bytes e e₁) : HardwareOnly e e₁ := by
  induction h with
  | nil address e => exact ⟨e.hardware, rfl⟩
  | cons _ _ _ ih => exact HardwareOnly.trans ⟨_, rfl⟩ ih

theorem Copied.append {bytes' : List UInt8} (h : Copied target address bytes e e₁)
    (h' : Copied target (address + bytes.length) bytes' e₁ e₂) :
    Copied target address (bytes ++ bytes') e e₂ := by
  induction h with
  | nil => exact h'
  | cons hmapping hreach _ ih =>
    refine .cons hmapping hreach (ih ?_)
    rwa [length_cons, Nat.add_comm _ 1, ← Nat.add_assoc] at h'

/-- Only the places of the addresses are written to. -/
theorem Copied.unwritten (h : Copied target address bytes e e₁) {place : Nat}
    (hplace : ∀ i < bytes.length, ∀ mapping, e.space.mapping (pageOf (address + i)) = some mapping →
      place ≠ mapping.physicalFrame.toNat + (address + i - pageOf (address + i))) :
    e₁.hardware.memory place = e.hardware.memory place := by
  induction h with
  | nil => rfl
  | @cons address byte bytes e e' mapping hmapping hreach rest ih =>
    have hfirst := hplace 0 (Nat.succ_pos _) mapping hmapping
    refine (ih fun i hi other hother => ?_).trans (Store.write_other _ ?_)
    · have hnext := hplace (i + 1) (Nat.succ_lt_succ hi) other
      rw [Nat.add_comm i, ← Nat.add_assoc] at hnext
      exact hnext hother
    · rw [length_singleton]
      rw [Nat.add_zero] at hfirst
      omega

/-- A write inside the page of a frame. -/
theorem copied_patch {page : Nat} {mapping : MappingInfo} (haligned : page % 4096 = 0) :
    ∀ (bytes : List UInt8) (offset : Nat) (e : Env), e.space.mapping page = some mapping →
      Addressable target e.hardware mapping.physicalFrame → offset + bytes.length ≤ 4096 →
      Copied target (page + offset) bytes e
        (e.setHardware (patch e.hardware mapping.physicalFrame offset bytes)) := by
  intro bytes
  induction bytes with
  | nil =>
    intro offset e _ _ _
    rw [patch, Store.write_nil]
    exact .nil _ e
  | cons byte bytes ih =>
    intro offset e hmapping hreach hfits
    rw [length_cons] at hfits
    have hpage : pageOf (page + offset) = page := pageOf_eq haligned (by omega) (by omega)
    have happend : patch (patch e.hardware mapping.physicalFrame offset [byte])
        mapping.physicalFrame (offset + 1) bytes =
          patch e.hardware mapping.physicalFrame offset (byte :: bytes) :=
      patch_append offset [byte] bytes
    refine .cons (hpage.symm ▸ hmapping) hreach ?_
    rw [hpage, Nat.add_sub_cancel_left, ← happend]
    exact ih (offset + 1) (e.setHardware (patch e.hardware mapping.physicalFrame offset [byte]))
      hmapping (addressable_of_ready rfl hreach) (by omega)

/-- What the loop writes, and when it fails. -/
theorem loadFrom_copied : ∀ (turns cursor : Nat) (bytes : List UInt8) (e : Env),
    bytes.length ≤ turns → wp (loadFrom target turns cursor bytes) (fun _ => Copied target cursor bytes e)
      (fun error e' => HardwareOnly e e' ∧
        (Backed e.space cursor bytes.length → error = .hardwareUnavailable)) e := by
  intro turns
  induction turns with
  | zero =>
    intro cursor bytes e hlen
    rw [length_eq_zero_iff.mp (Nat.le_zero.mp hlen)]
    exact .nil cursor e
  | succ turns ih =>
    intro cursor bytes e hlen
    rw [loadFrom, wp_ite]
    refine ⟨fun hnil => ?_, fun hsome => ?_⟩
    · subst hnil
      exact .nil cursor e
    have hpos := length_pos_iff.mpr hsome
    have hle := pageOf_le cursor
    have hlt := lt_pageOf cursor
    have hsize : pageSize = 4096 := rfl
    simp only [wp_bind, wp_lookup, writePhysical, wp_within, wp_act, wp_ite, wp_fail]
    refine ⟨fun mapping hmapping => ?_, fun hnone => ⟨⟨e.hardware, rfl⟩, fun hbacked =>
      absurd hnone (hbacked.mapped cursor (Nat.le_refl _) (by omega))⟩⟩
    generalize hcount : min (pageSize - (cursor - pageOf cursor)) bytes.length = count
    have htake : (bytes.take count).length = count := by rw [length_take]; omega
    refine ⟨fun _ => ⟨⟨_, rfl⟩, fun _ => trivial⟩, fun htrue => ?_⟩
    rcases writeFrame_cases (cursor - pageOf cursor) (bytes.take count) with
      hrefused | ⟨hwritten, hfits, hreach⟩
    · exact absurd (congrArg Prod.fst hrefused) htrue
    rw [hwritten]
    have haligned : pageOf cursor % 4096 = 0 := Nat.mul_mod_left _ _
    have hcopied := copied_patch haligned _ _ e hmapping hreach hfits
    rw [Nat.add_sub_cancel' hle] at hcopied
    refine ⟨fun next hnext => ?_, fun hnone => ⟨⟨_, rfl⟩, fun hbacked => ?_⟩⟩
    · rcases Usize.checkedAdd_eq_some.mp hnext with ⟨rfl, _⟩
      refine wp_mono (ih (cursor + count) (bytes.drop count) _ (by rw [length_drop]; omega))
        (fun _ e' he' => ?_) fun _ e' he' => ⟨HardwareOnly.trans ⟨_, rfl⟩ he'.1, fun hbacked =>
          he'.2 ⟨fun address hle' hlt' => ?_, ?_⟩⟩
      · have happend := hcopied.append (by rw [htake]; exact he')
        rwa [take_append_drop] at happend
      · rw [length_drop] at hlt'
        exact hbacked.mapped address (by omega) (by omega)
      · have := hbacked.fits
        rw [length_drop]
        omega
    · have := hbacked.fits
      rw [Usize.checkedAdd, if_pos (by omega)] at hnone
      cases hnone

theorem load_copied (virtualAddress : Nat) (bytes : List UInt8) :
    wp (load target virtualAddress bytes) (fun _ => Copied target virtualAddress bytes e)
      (fun error e' => HardwareOnly e e' ∧ (e.space.rootFrame ≠ none →
        Backed e.space virtualAddress bytes.length → error = .hardwareUnavailable)) e := by
  unfold load
  simp only [wp_bind, wp_read, wp_ite, wp_fail]
  refine ⟨fun hnone => ⟨⟨e.hardware, rfl⟩, fun hlive => absurd hnone hlive⟩, fun _ => ?_⟩
  exact wp_mono (loadFrom_copied _ _ _ _ (Nat.le_refl _)) (fun _ _ h => h)
    fun _ _ h => ⟨h.1, fun _ => h.2⟩

/-- The bytes of some words. -/
def wordBytes (words : List UInt64) : List UInt8 := words.flatMap fun word => leBytes 8 word.toNat

theorem wordBytes_length (words : List UInt64) : (wordBytes words).length = 8 * words.length := by
  induction words with
  | nil => rfl
  | cons word words ih =>
    change (leBytes 8 word.toNat ++ wordBytes words).length = _
    rw [length_append, leBytes_length, length_cons]
    omega

theorem loadWordsFrom_copied (target : Machine) (virtualAddress : Nat) :
    ∀ (words : List UInt64) (index : Nat) (e : Env),
      wp (loadWordsFrom target virtualAddress index words)
        (fun _ => Copied target (virtualAddress + index * 8) (wordBytes words) e)
        (fun error e' => HardwareOnly e e' ∧ (e.space.rootFrame ≠ none →
          Backed e.space (virtualAddress + index * 8) (8 * words.length) →
            error = .hardwareUnavailable)) e := by
  intro words
  induction words with
  | nil => exact fun index e => .nil _ e
  | cons word words ih =>
    intro index e
    have hcons : wordBytes (word :: words) = leBytes 8 word.toNat ++ wordBytes words := rfl
    have hlen := leBytes_length 8 word.toNat
    simp only [loadWordsFrom, hcons, wp_bind, wp_lookup, length_cons]
    refine ⟨fun offset hoffset => ?_, fun hnone => ⟨⟨e.hardware, rfl⟩, fun _ hbacked => ?_⟩⟩
    · rcases Usize.checkedMul_eq_some.mp hoffset with ⟨rfl, _⟩
      refine ⟨fun address haddress => ?_, fun hnone => ⟨⟨e.hardware, rfl⟩, fun _ hbacked => ?_⟩⟩
      · rcases Usize.checkedAdd_eq_some.mp haddress with ⟨rfl, _⟩
        refine wp_mono (load_copied _ _) (fun _ e₁ h₁ => ?_) fun error e₁ h₁ => ⟨h₁.1,
          fun hlive hbacked => h₁.2 hlive ⟨fun address hle hlt =>
            hbacked.mapped address hle (by omega), by have := hbacked.fits; omega⟩⟩
        have hspace : e₁.space = e.space := by
          rcases h₁.hardwareOnly with ⟨hardware, rfl⟩
          rfl
        have hnext : virtualAddress + index * 8 + (leBytes 8 word.toNat).length =
            virtualAddress + (index + 1) * 8 := by omega
        refine wp_mono (ih (index + 1) e₁) (fun _ e₂ h₂ => h₁.append (hnext ▸ h₂)) fun _ e₂ h₂ =>
          ⟨h₁.hardwareOnly.trans h₂.1, fun hlive hbacked => h₂.2 (hspace ▸ hlive)
            ⟨fun address hle hlt => ?_, by have := hbacked.fits; omega⟩⟩
        rw [hspace]
        exact hbacked.mapped address (by omega) (by omega)
      · have := hbacked.fits
        rw [Usize.checkedAdd, if_pos (by omega)] at hnone
        cases hnone
    · have := hbacked.fits
      rw [Usize.checkedMul, if_pos (by omega)] at hnone
      cases hnone

theorem loadWords_copied (virtualAddress : Nat) (words : List UInt64) :
    wp (loadWords target virtualAddress words)
      (fun _ => Copied target virtualAddress (wordBytes words) e)
      (fun error e' => HardwareOnly e e' ∧ (e.space.rootFrame ≠ none →
        Backed e.space virtualAddress (8 * words.length) → error = .hardwareUnavailable)) e := by
  have hcopied := loadWordsFrom_copied target virtualAddress words 0 e
  rwa [Nat.zero_mul, Nat.add_zero] at hcopied

end Filling

end Space

end Norx
