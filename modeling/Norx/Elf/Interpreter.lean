import Norx.Elf.Plan

/-!
# The Interpreter of an Image

Which program is to interpret an image: the path in the image's own header for
one, or else the path that was asked for. Both are checked to be short, not empty
and without a zero byte.

## Main definitions

* `validateInterpreter`, `interpreter`, `selectInterpreter`: The selection.

## Theorems

* `selectInterpreter_ends`: It never leaves the image, and a path it returns is a
  short one.
-/

namespace Norx

namespace Elf

open Checked

def ptInterp : Nat := 3
def maxInterpreter : Nat := 128

def validateInterpreter (path : List UInt8) : Checked Error (List UInt8) := do
  reject (path = [] ∨ maxInterpreter < path.length ∨ 0 ∈ path) .invalidInterpreter
  return path

/-- The path of an interpreter header. -/
def interpreterPath (image : List UInt8) (offset : Nat) : Checked Error (List UInt8) := do
  let fileOffset ← usizeFromU64 (← readU64 image (← add offset 8))
  let fileSize ← usizeFromU64 (← readU64 image (← add offset 32))
  reject (fileSize = 0 ∨ maxInterpreter < fileSize) .interpreterTooLong
  let fileEnd ← require .fileRangeOverflow (Usize.checkedAdd fileOffset fileSize)
  let bytes ← require .fileRangeOverflow (getRange image fileOffset fileEnd)
  let end_ ← require .invalidInterpreter (bytes.findIdx? (· == 0))
  let path ← slice bytes 0 end_
  validateInterpreter path

/-- The loop over the program headers, which ends at the first one that names an
    interpreter. -/
def interpreterFrom (image : List UInt8) (programHeaderOffset : Nat) :
    List Nat → Checked Error (Option (List UInt8))
  | [] => return none
  | index :: rest => do
    let offset ← add programHeaderOffset (← mul index programHeaderSize)
    let kind ← readU32 image offset
    if kind ≠ ptInterp then interpreterFrom image programHeaderOffset rest
    else
      let path ← interpreterPath image offset
      return some path

def interpreter (image : List UInt8) : Checked Error (Option (List UInt8)) := do
  reject (image.length < elfHeaderSize) .truncated
  let programHeaderOffset ← usizeFromU64 (← readU64 image 32)
  let programHeaderCount ← readU16 image 56
  let programHeaderBytes ← require .programHeaderOverflow
    (Usize.checkedMul programHeaderCount programHeaderSize)
  let end_ ← require .programHeaderOverflow
    (Usize.checkedAdd programHeaderOffset programHeaderBytes)
  reject (image.length < end_) .truncated
  interpreterFrom image programHeaderOffset (List.range programHeaderCount)

def selectInterpreter (image : List UInt8) (requested : Option (List UInt8)) :
    Checked Error (Option (List UInt8)) := do
  match (← interpreter image) with
  | some path => return some path
  | none =>
    match requested with
    | some path =>
      let path ← validateInterpreter path
      return some path
    | none => return none

/-! ### It does not panic -/

/-- A path that may be used. -/
def PathOk (path : List UInt8) : Prop := path ≠ [] ∧ path.length ≤ maxInterpreter ∧ 0 ∉ path

theorem validateInterpreter_ends (path : List UInt8) :
    Checked.Ends (validateInterpreter path) PathOk := by
  simp +contextual [validateInterpreter, PathOk]

variable {image : List UInt8}

theorem interpreterPath_ends {offset : Nat} (hfits : offset + 56 < 2 ^ 64) :
    Checked.Ends (interpreterPath image offset) PathOk := by
  simp only [interpreterPath, readU64, ends_bind, ends_add, ends_readLe, ends_usizeFromU64,
    ends_reject, ends_require, ends_slice]
  refine ⟨by omega, by omega, fun _ _ => ⟨by omega, by omega, fun _ _ _ fileEnd _ bytes _ end_ hend =>
    ⟨⟨Nat.zero_le _, ?_⟩, validateInterpreter_ends _⟩⟩⟩
  exact (List.findIdx?_eq_some_iff_getElem.mp hend).1.le

theorem interpreterFrom_ends {programHeaderOffset count : Nat}
    (hfits : programHeaderOffset + count * programHeaderSize < 2 ^ 64) (indices : List Nat)
    (hindices : ∀ index ∈ indices, index < count) :
    Checked.Ends (interpreterFrom image programHeaderOffset indices)
      fun found => ∀ path, found = some path → PathOk path := by
  induction indices with
  | nil => exact nofun
  | cons index rest ih =>
    have hindex := hindices index List.mem_cons_self
    have hrest := ih fun other hother => hindices other (List.mem_cons_of_mem _ hother)
    simp only [interpreterFrom, readU32, programHeaderSize, ends_bind, ends_mul, ends_add,
      ends_readLe, ends_ite, ends_pure] at hfits ⊢
    refine ⟨by omega, by omega, by omega, fun _ => ⟨fun _ => hrest, fun _ => ?_⟩⟩
    refine ends_mono (interpreterPath_ends (by omega)) fun path hpath other hother => ?_
    rw [← Option.some.inj hother]
    exact hpath

theorem selectInterpreter_ends (image : List UInt8) (requested : Option (List UInt8)) :
    Checked.Ends (selectInterpreter image requested)
      fun found => ∀ path, found = some path → PathOk path := by
  have hsome {path : List UInt8} (hpath : PathOk path) : ∀ other, some path = some other →
      PathOk other := fun other hother => Option.some.inj hother ▸ hpath
  simp only [selectInterpreter, interpreter, readU64, readU16, ends_bind, ends_reject, ends_readLe,
    ends_usizeFromU64, ends_require, Usize.checkedMul_eq_some, Usize.checkedAdd_eq_some, and_imp,
    forall_eq']
  refine fun _ => ⟨by decide, fun _ _ => ⟨by decide, fun _ _ hfits _ => ?_⟩⟩
  refine ends_mono (interpreterFrom_ends hfits _ fun index => List.mem_range.mp) fun found hfound => ?_
  cases found with
  | some path => exact hsome (hfound path rfl)
  | none =>
    cases requested with
    | none => rintro _ ⟨⟩
    | some path => exact ends_then (validateInterpreter_ends path) fun path hpath => hsome hpath

end Elf

end Norx
