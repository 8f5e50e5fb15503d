import Norx.Space.Filling
import Norx.UserRuntime.Prepare

/-!
# What Preparing a Program Does

A plan that was parsed from an image has its segments in order, and each is in
the file and in pages of its own. So none of the early returns that drop the new
space is taken for want of a segment, an offset or a page; what is left is a
frame that cannot be written to. Every other failure destroys the space, which
gives back all its frames.

On success the pages of each segment hold the file's bytes from the start of the
segment on, and zero after them.

A plan that goes with another image can make more of the early returns happen.
Then the frames of the new space are lost, but no other space's are.

## Main definitions

* `Keeping`: What is kept while any plan is loaded.

## Theorems

* `mapPages_spec`, `loadSegment_spec`, `prepareSegment_spec`: The parts.
* `prepareSpace_spec`: Everything after the space has been made.
* `prepareSegments_keeps`, `prepareSpace_strayed`: The same for any plan and image.
-/

namespace Norx

namespace UserRuntime

open Fallible Space Memory Elf List

/-- A plan with the segments of an image, in the first slots. -/
structure Ready (target : Machine) (image : List UInt8) (plan : LoadPlan) : Prop where
  each : ∀ segment ∈ plan.segments.entries, SegmentOk target image segment
  apart : plan.segments.entries.Pairwise SegmentPlan.Apart
  count : plan.segmentCount = plan.segments.entries.length
  slots : ∀ i, plan.segments.get i = plan.segments.entries[i]?
  sizes : ∀ segment ∈ plan.segments.entries,
    segment.virtualStart + segment.fileSize ≤ segment.virtualEnd
  fits : ∀ segment ∈ plan.segments.entries, segment.fileOffset + segment.fileSize < 2 ^ 64

/-- What the parser returns is ready to be loaded. -/
theorem ready_of_parse {target machine : Machine} {image : List UInt8} {loadBias : Nat}
    {plan : LoadPlan} (h : parse target image machine loadBias = .ok plan) :
    Ready target image plan := by
  rcases (parse_ends target image machine loadBias).of_ok h with ⟨hplan, hfree, hfits⟩
  have hcount : plan.segments.entries.length = plan.segmentCount := by
    rw [hplan.count, hplan.segments, length_map]
  refine ⟨hplan.each, hplan.apart, hcount.symm, Slots.get_eq_entries hfree hplan.few hcount,
    fun segment hsegment => ?_, hfits⟩
  have hsizes := (hplan.each segment hsegment).sizes
  rw [hplan.segments] at hsegment
  rcases mem_map.mp hsegment with ⟨header, _, rfl⟩
  dsimp only [segmentOf] at hsizes ⊢
  change _ + _ / 4096 * 4096 + _ ≤ _ + (_ + _ + (4096 - 1)) / 4096 * 4096
  omega

variable {info : BootInfo} {target : Machine} {others lost : List UInt64} {e : Env}
  {image : List UInt8} {plan : LoadPlan}

/-- A failure that has given back every frame, unless there was an image and a
    frame was out of reach. -/
def Released (info : BootInfo) (file : Option (List UInt8)) (others lost : List UInt64)
    (error : Error) (e : Env) : Prop :=
  file = none ∨ error ≠ .addressSpace .hardwareUnavailable → Accounts info others lost e.frames

/-- A step that fails gives back every frame. -/
theorem wp_orDestroy {α : Type} {x : RuntimeM α} {Q : α → Env → Prop} {E : Error → Env → Prop}
    (hE : ∀ error e', Accounts info others lost e'.frames → E error e')
    (hx : wp x Q (fun _ => Filling info target others lost) e) : wp (orDestroy target x) Q E e := by
  unfold orDestroy
  rw [wp_bind, wp_attempt]
  refine wp_mono hx (fun _ _ h => h) fun error e' he' => ?_
  simp [onSpace]
  exact wp_mono (destroy_filling he') (fun _ _ h => hE _ _ h) fun _ _ h => h.elim

/-! ### Any plan -/

section AnyPlan

/-- What a space keeps while segments are loaded to it, whatever the plan, and what
    holds after a failure. -/
structure Keeping (target : Machine) (I F : Env → Prop) : Prop where
  drop : ∀ e, I e → F e
  hardware : ∀ e e', I e → HardwareOnly e e' → I e'
  page : ∀ e page flags, I e → wp (orDestroy target (onSpace (mapAnonymous target page flags)))
    (fun _ => I) (fun _ => F) e

section

variable {I F : Env → Prop} (hkeep : Keeping target I F)

include hkeep

theorem mapPages_keeps (flags : PageFlags) (end_ : Nat) : ∀ (turns page : Nat) (e : Env),
    I e → wp (mapPages target flags end_ turns page) (fun _ => I) (fun _ => F) e := by
  intro turns
  induction turns with
  | zero =>
    intro page e h
    exact h
  | succ turns ih =>
    intro page e h
    unfold mapPages
    simp only [wp_ite, wp_bind, wp_pure]
    refine ⟨fun _ => wp_post (hkeep.page e page flags h) (fun _ e₁ h₁ => ?_), fun _ => h⟩
    rw [wp_lookup]
    exact ⟨fun next _ => ih next e₁ h₁, fun _ => hkeep.drop e₁ h₁⟩

theorem prepareSegments_keeps (file : Option (List UInt8)) (plan : LoadPlan) (h : I e) :
    wp ((List.range plan.segmentCount).foldlM (prepareSegment target file plan) 0) (fun _ => I)
      (fun _ => F) e := by
  refine wp_foldlM (fun _ _ => I) (fun index _ heapNext e₁ h₁ => ?_) _ 0 e h
  unfold prepareSegment
  simp
  refine ⟨fun segment _ => ?_, fun _ => hkeep.drop e₁ h₁⟩
  refine wp_post (mapPages_keeps hkeep _ _ _ _ e₁ h₁) (fun _ e₂ h₂ => ?_)
  have hdrop := hkeep.drop e₂ h₂
  cases file with
  | none => exact h₂
  | some image =>
    unfold loadSegment
    simp only [wp_ite, wp_bind, wp_lookup, wp_pure, onSpace, wp_mapError]
    refine ⟨fun _ => ⟨fun _ _ => ⟨fun _ _ => ⟨fun bytes _ => ?_, fun _ => hdrop⟩, fun _ => hdrop⟩,
      fun _ => hdrop⟩, fun _ => h₂⟩
    exact wp_mono (load_effect _ _) (fun _ e₃ h₃ => hkeep.hardware e₂ e₃ h₂ h₃)
      fun _ e₃ h₃ => hkeep.drop e₃ (hkeep.hardware e₂ e₃ h₂ h₃)

end

theorem filling_keeping :
    Keeping target (Filling info target others lost) (Strayed info others) := by
  refine ⟨fun _ => Filling.strayed, fun _ _ => Filling.hardwareOnly, fun e page flags h => ?_⟩
  refine wp_orDestroy (fun _ _ h => ⟨lost, h⟩) ?_
  rw [onSpace, wp_mapError]
  exact wp_mono (mapPage_filling h page flags .anonymous) (fun _ _ h => h.1) fun _ _ h => h

/-- Whatever the plan and the image, no frame is taken from another space. -/
theorem prepareSpace_strayed (file : Option (List UInt8)) (plan : LoadPlan)
    (arguments environment : List (List UInt8)) (h : Filling info target others lost e) :
    wp (prepareSpace target file plan arguments environment)
      (fun _ => Filling info target others lost) (fun _ => Strayed info others) e := by
  unfold prepareSpace
  rw [wp_bind]
  refine wp_post (prepareSegments_keeps filling_keeping file plan h) (fun heapNext e₁ h₁ => ?_)
  simp
  refine wp_orDestroy (fun _ _ h => ⟨lost, h⟩) ?_
  rw [onSpace, wp_mapError]
  refine wp_post (mapStack_filling h₁) (fun _ e₂ h₂ => ?_)
  refine wp_orDestroy (fun _ _ h => ⟨lost, h⟩) ?_
  rw [wp_mapError, wp_lift]
  refine ⟨fun stack _ => ?_, fun _ _ => h₂.1⟩
  simp [onSpace]
  refine ⟨fun _ => ?_, fun _ => ⟨fun _ _ => h₂.1, fun _ => h₂.1.strayed⟩⟩
  refine wp_mono (loadWords_effect _ _) (fun _ e₃ h₃ => ?_)
    fun _ _ h' => (h₂.1.hardwareOnly h').strayed
  have h₃ := h₂.1.hardwareOnly h₃
  exact ⟨fun _ _ => h₃, fun _ => h₃.strayed⟩

end AnyPlan

/-! ### The pages of a segment -/

theorem mapPages_spec (file : Option (List UInt8)) (flags : PageFlags) {end_ : Nat} (hend : end_ % 4096 = 0)
    (hlimit : end_ ≤ userLimit target) : ∀ (turns page : Nat) (e : Env), page % 4096 = 0 →
      end_ ≤ page + turns → Filling info target others lost e →
      wp (mapPages target flags end_ turns page)
        (fun _ e' => Filling info target others lost e' ∧
          Grown target (fun p => page ≤ p ∧ p < end_) e e')
        (Released info file others lost) e := by
  intro turns
  induction turns with
  | zero =>
    intro page e _ hturns h
    exact ⟨h, grown_none target (fun _ => by omega) e⟩
  | succ turns ih =>
    intro page e haligned hturns h
    unfold mapPages
    rw [wp_ite]
    refine ⟨fun hlt => ?_, fun hge => ⟨h, grown_none target (fun _ => by omega) e⟩⟩
    have hsize : pageSize = 4096 := rfl
    have hword : userLimit target < 2 ^ 64 - 4096 := by cases target <;> decide
    simp only [wp_bind]
    refine wp_orDestroy (fun _ _ h _ => h) ?_
    rw [onSpace, wp_mapError]
    refine wp_post (mapPage_filling h page flags .anonymous) (fun mapping e₁ h₁ => ?_)
    rw [wp_lookup]
    refine ⟨fun next hnext => ?_, fun hnone => ?_⟩
    · rcases Usize.checkedAdd_eq_some.mp hnext with ⟨rfl, _⟩
      refine wp_post (ih (page + pageSize) e₁ (by omega) (by omega) h₁.1)
        (fun _ e₂ h₂ => ⟨h₂.1, ?_⟩)
      refine ((Added.grown h h₁.2).trans h₂.2).congr fun address => ?_
      have hmod : pageOf address % 4096 = 0 := Nat.mul_mod_left _ _
      omega
    · rw [Usize.checkedAdd, if_pos (by omega)] at hnone
      exact nomatch hnone

/-! ### Filling a segment -/

/-- What the pages of a segment hold: the file's bytes, where there is a file,
    and zero after them on every frame in reach. -/
structure Holds (target : Machine) (image : Option (List UInt8)) (segment : SegmentPlan) (e : Env) :
    Prop where
  pages : ∀ address, segment.virtualStart ≤ address → address < segment.virtualEnd → ∃ mapping,
    e.space.mapping (pageOf address) = some mapping ∧
      (segment.virtualStart + segment.fileSize ≤ address →
        Addressable target e.hardware mapping.physicalFrame → e.userByte address = some 0)
  file : ∀ bytes, image = some bytes → ∀ address, segment.virtualStart ≤ address →
    address < segment.virtualStart + segment.fileSize →
      e.userByte address = bytes[segment.fileOffset + (address - segment.virtualStart)]?

/-- A page of a segment is one of the aligned ones in it. -/
theorem pageOf_mem {start end_ : Nat} (hstart : start % 4096 = 0) (hend : end_ % 4096 = 0)
    (address : Nat) :
    (start ≤ pageOf address ∧ pageOf address < end_) ↔ start ≤ address ∧ address < end_ := by
  change (start ≤ address / 4096 * 4096 ∧ address / 4096 * 4096 < end_) ↔ _
  omega

variable {file : Option (List UInt8)} {segment : SegmentPlan}

/-- Of what a segment holds, nothing is touched on other pages. -/
theorem Holds.grown {pages : Nat → Prop} {e' : Env} (h : Holds target file segment e)
    (hgrown : Grown target pages e e')
    (hsize : segment.virtualStart + segment.fileSize ≤ segment.virtualEnd)
    (hout : ∀ address, segment.virtualStart ≤ address → address < segment.virtualEnd → ¬ pages
      (pageOf address)) : Holds target file segment e' := by
  refine ⟨fun address hle hlt => ?_, fun bytes hbytes address hle hlt => ?_⟩
  · rcases h.pages address hle hlt with ⟨mapping, hmapping, hzero⟩
    rcases hgrown.old address (hout address hle hlt) with ⟨hsame, hbyte⟩
    refine ⟨mapping, hsame.trans hmapping, fun hafter haddress => ?_⟩
    rw [hbyte]
    exact hzero hafter (addressable_of_ready hgrown.ready.symm haddress)
  · rw [(hgrown.old address (hout address hle (by omega))).2]
    exact h.file bytes hbytes address hle hlt

/-- Nor is anything by bytes stored elsewhere. -/
theorem Holds.stored {start : Nat} {bytes : List UInt8} {e' : Env} (h : Holds target file segment e)
    (hstored : Stored start bytes e e')
    (hsize : segment.virtualStart + segment.fileSize ≤ segment.virtualEnd)
    (hout : ∀ address, segment.virtualStart ≤ address → address < segment.virtualEnd → ¬ (start ≤
      address ∧ address < start + bytes.length)) : Holds target file segment e' := by
  refine ⟨fun address hle hlt => ?_, fun content hcontent address hle hlt => ?_⟩
  · rcases h.pages address hle hlt with ⟨mapping, hmapping, hzero⟩
    refine ⟨mapping, by rw [hstored.space]; exact hmapping, fun hafter haddress => ?_⟩
    rw [hstored.view, if_neg (hout address hle hlt)]
    exact hzero hafter (addressable_of_ready hstored.ready.symm haddress)
  · rw [hstored.view, if_neg (hout address hle (by omega))]
    exact h.file content hcontent address hle hlt

/-- A part of a segment is looked up in the file in the segment itself: the others
    end before it, or start after it. -/
theorem fileOffset_segment (hready : Ready target image plan)
    (hmem : segment ∈ plan.segments.entries) (address : Nat) {length : Nat} (hsome : length ≠ 0)
    (hlow : segment.virtualStart ≤ address)
    (hhigh : address + length ≤ segment.virtualStart + segment.fileSize) :
    plan.fileOffset address length =
      some (segment.fileOffset + (address - segment.virtualStart)) := by
  have hword : userLimit target < 2 ^ 64 := by cases target <;> decide
  have hlimit := (hready.each segment hmem).high
  have hsize := hready.sizes segment hmem
  have hfit := hready.fits segment hmem
  have hend : Usize.checkedAdd address length = some (address + length) :=
    Usize.checkedAdd_eq_some.mpr ⟨rfl, by omega⟩
  have hfileEnd : Usize.checkedAdd segment.virtualStart segment.fileSize =
      some (segment.virtualStart + segment.fileSize) :=
    Usize.checkedAdd_eq_some.mpr ⟨rfl, by omega⟩
  have hself : LoadPlan.offsetIn address (address + length) segment =
      some (segment.fileOffset + (address - segment.virtualStart)) := by
    rw [LoadPlan.offsetIn, hfileEnd]
    exact (if_neg (by omega)).trans (Usize.checkedAdd_eq_some.mpr ⟨rfl, by omega⟩)
  unfold LoadPlan.fileOffset
  rw [hend]
  rcases append_of_mem hmem with ⟨before, after, hsplit⟩
  have hapart := hready.apart
  have hsizes := hready.sizes
  change plan.segments.entries.findSome? _ = _
  rw [hsplit] at hapart hsizes ⊢
  rw [List.findSome?_append, List.findSome?_cons, hself]
  have hbefore : before.findSome? (LoadPlan.offsetIn address (address + length)) = none := by
    refine List.findSome?_eq_none_iff.mpr fun other hother => ?_
    have hother' := hsizes other (mem_append_left _ hother)
    have hdisjoint := (pairwise_append.mp hapart).2.2 other hother segment mem_cons_self
    unfold SegmentPlan.Apart at hdisjoint
    rw [LoadPlan.offsetIn]
    cases hsum : Usize.checkedAdd other.virtualStart other.fileSize with
    | none => rfl
    | some fileEnd =>
      rcases Usize.checkedAdd_eq_some.mp hsum with ⟨rfl, _⟩
      exact if_pos (by omega)
  rw [hbefore]
  rfl

/-- A segment that has just been mapped is filled from the file. -/
theorem loadSegment_spec (hready : Ready target image plan) (hmem : segment ∈ plan.segments.entries)
    (h : Filling info target others lost e)
    (hmapped : ∀ address, segment.virtualStart ≤ address → address < segment.virtualEnd →
      e.space.mapping (pageOf address) ≠ none) :
    wp (loadSegment target image plan segment)
      (fun _ e' => Filling info target others lost e' ∧ Stored segment.virtualStart
        ((image.drop segment.fileOffset).take segment.fileSize) e e')
      (Released info (some image) others lost) e := by
  have hword : userLimit target < 2 ^ 64 := by cases target <;> decide
  have hhigh := (hready.each segment hmem).high
  have hinFile := (hready.each segment hmem).inFile
  have hsize := hready.sizes segment hmem
  have hfit := hready.fits segment hmem
  unfold loadSegment
  rw [wp_ite]
  refine ⟨fun hsome => ?_, fun hnone => ?_⟩
  · have hlookup := fileOffset_segment hready hmem segment.virtualStart hsome (Nat.le_refl _) (Nat.le_refl _)
    rw [Nat.sub_self, Nat.add_zero] at hlookup
    have hsum : Usize.checkedAdd segment.fileOffset segment.fileSize =
        some (segment.fileOffset + segment.fileSize) :=
      Usize.checkedAdd_eq_some.mpr ⟨rfl, hfit⟩
    have hrange : getRange image segment.fileOffset (segment.fileOffset + segment.fileSize) =
        some ((image.drop segment.fileOffset).take segment.fileSize) := by
      unfold getRange
      rw [if_pos ⟨by omega, hinFile⟩, Nat.add_sub_cancel_left]
    have hlen : ((image.drop segment.fileOffset).take segment.fileSize).length =
        segment.fileSize := by
      rw [length_take, length_drop]
      omega
    simp [hlookup, hsum, hrange, onSpace, -Usize.checkedAdd_eq_some]
    refine wp_mono (load_view h.paged h.live _ _) (fun _ e' h' => ⟨h.stored h', h'⟩)
      fun error e' h' hne => absurd (congrArg Error.addressSpace (h' ⟨?_, ?_⟩))
        (hne.resolve_left nofun)
    · intro address hle hlt
      exact hmapped address hle (by omega)
    · omega
  · rw [not_not.mp hnone]
    exact ⟨h, stored_nil _ e⟩

/-- One turn of the loop over the segments: the segment is filled, and nothing
    outside its pages has changed. -/
theorem prepareSegment_spec (hready : Ready target image plan)
    (hfile : ∀ bytes, file = some bytes → bytes = image) {index : Nat}
    (hindex : plan.segments.entries[index]? = some segment) (heapNext : Nat)
    (h : Filling info target others lost e) :
    wp (prepareSegment target file plan heapNext index)
      (fun next e' => Filling info target others lost e' ∧ next = max heapNext segment.virtualEnd ∧
        Holds target file segment e' ∧ e'.space.stackTop = e.space.stackTop ∧
        ∀ other ∈ plan.segments.entries, SegmentPlan.Apart other segment → Holds target file other e →
          Holds target file other e')
      (Released info file others lost) e := by
  have hmem := mem_of_getElem? hindex
  have hok := hready.each segment hmem
  have hsize := hready.sizes segment hmem
  have hinFile := hok.inFile
  have hpage := pageOf_mem hok.startAligned hok.endAligned
  unfold prepareSegment LoadPlan.segment
  simp [hready.slots, hindex]
  refine wp_post (mapPages_spec file (pageFlags segment.flags) hok.endAligned hok.high _ _ e
    hok.startAligned (by omega) h) (fun _ e₁ h₁ => ?_)
  rcases h₁ with ⟨h₁, hgrown⟩
  have hnew : ∀ address, segment.virtualStart ≤ address → address < segment.virtualEnd → ∃ mapping,
      e₁.space.mapping (pageOf address) = some mapping ∧
        (Addressable target e₁.hardware mapping.physicalFrame → e₁.userByte address = some 0) := by
    intro address hle hlt
    rcases hgrown.new address ((hpage address).mpr ⟨hle, hlt⟩) with ⟨mapping, hmapping, hzero⟩
    exact ⟨mapping, hmapping, fun haddress => hzero (addressable_of_ready hgrown.ready.symm haddress)⟩
  have hout {other : SegmentPlan} (hapart : SegmentPlan.Apart other segment) (address : Nat)
      (hle : other.virtualStart ≤ address) (hlt : address < other.virtualEnd) :
      ¬ (segment.virtualStart ≤ pageOf address ∧ pageOf address < segment.virtualEnd) := by
    rw [hpage]
    unfold SegmentPlan.Apart at hapart
    omega
  cases file with
  | none =>
    simp only [wp_pure]
    refine ⟨h₁, trivial, ⟨fun address hle hlt => ?_, by rintro _ ⟨⟩⟩, hgrown.top,
      fun other hother hapart hholds => hholds.grown hgrown (hready.sizes other hother) (hout hapart)⟩
    rcases hnew address hle hlt with ⟨mapping, hmapping, hzero⟩
    exact ⟨mapping, hmapping, fun _ => hzero⟩
  | some bytes =>
    have hbytes := hfile bytes rfl
    subst hbytes
    simp only [wp_bind, wp_pure]
    refine wp_post (loadSegment_spec hready hmem h₁ fun address hle hlt hnone => ?_)
      (fun _ e₂ h₂ => ?_)
    · rcases hnew address hle hlt with ⟨mapping, hmapping, _⟩
      rw [hmapping] at hnone
      cases hnone
    rcases h₂ with ⟨h₂, hstored⟩
    have hlen : ((bytes.drop segment.fileOffset).take segment.fileSize).length =
        segment.fileSize := by
      rw [length_take, length_drop]
      omega
    refine ⟨h₂, trivial, ⟨fun address hle hlt => ?_, fun content hcontent address hle hlt => ?_⟩, ?_,
      fun other hother hapart hholds => ?_⟩
    · rcases hnew address hle hlt with ⟨mapping, hmapping, hzero⟩
      refine ⟨mapping, by rw [hstored.space]; exact hmapping, fun hafter haddress => ?_⟩
      rw [hstored.view, if_neg (by omega)]
      exact hzero (addressable_of_ready hstored.ready.symm haddress)
    · injection hcontent with hcontent
      rw [← hcontent, hstored.view, hlen, if_pos ⟨hle, hlt⟩, List.getElem?_take_of_lt (by omega),
        List.getElem?_drop]
    · rw [hstored.space]
      exact hgrown.top
    · have hgrown' := hholds.grown hgrown (hready.sizes other hother) (hout hapart)
      refine hgrown'.stored hstored (hready.sizes other hother) fun address hle hlt hin => ?_
      unfold SegmentPlan.Apart at hapart
      omega

/-! ### The whole program -/

/-- Some segments have been filled. -/
structure Loaded (info : BootInfo) (target : Machine) (others lost : List UInt64)
    (file : Option (List UInt8)) (segments : List SegmentPlan) (top heapNext : Nat) (e : Env) :
    Prop where
  filling : Filling info target others lost e
  holds : ∀ segment ∈ segments, Holds target file segment e
  top : e.space.stackTop = top
  heap : heapNext ≤ userLimit target

section Loading

variable (hready : Ready target image plan) (hfile : ∀ bytes, file = some bytes → bytes = image)
  (h : Filling info target others lost e)

include hready hfile h

theorem prepareSegments_spec :
    wp ((List.range plan.segmentCount).foldlM (prepareSegment target file plan) 0)
      (fun heapNext => Loaded info target others lost file plan.segments.entries e.space.stackTop
        heapNext)
      (Released info file others lost) e := by
  -- After some turns, as many of the segments have been filled.
  refine wp_post (wp_foldlM (fun remaining heapNext e' => ∃ k,
    remaining = (List.range plan.segmentCount).drop k ∧ Loaded info target others lost file
      (plan.segments.entries.take k) e.space.stackTop heapNext e') ?_ _ 0 e
    ⟨0, rfl, h, nofun, rfl, Nat.zero_le _⟩) (fun heapNext e' he' => ?_)
  · rintro index rest heapNext e₁ ⟨k, hrest, h₁⟩
    have hk : k < plan.segmentCount := by
      by_contra hge
      rw [drop_of_length_le (by rw [length_range]; omega)] at hrest
      exact nomatch hrest
    rw [drop_eq_getElem_cons (by rw [length_range]; exact hk), getElem_range] at hrest
    injection hrest with hindex hrest
    subst hindex
    have hlen : index < plan.segments.entries.length := by
      rw [← hready.count]
      exact hk
    have hget := List.getElem?_eq_getElem hlen
    have hmem := mem_of_getElem? hget
    refine wp_post (prepareSegment_spec hready hfile hget heapNext h₁.filling)
      (fun next e₂ h₂ => ⟨index + 1, hrest, ?_⟩)
    rcases h₂ with ⟨h₂, rfl, hholds, htop, hothers⟩
    refine ⟨h₂, fun other hother => ?_, htop.trans h₁.top,
      Nat.max_le.mpr ⟨h₁.heap, (hready.each _ hmem).high⟩⟩
    rw [take_succ_eq_append_getElem hlen] at hother
    rcases mem_append.mp hother with hother | hother
    · have hsplit := hready.apart
      rw [← take_append_drop index plan.segments.entries,
        drop_eq_getElem_cons hlen] at hsplit
      exact hothers other (mem_of_mem_take hother)
        ((pairwise_append.mp hsplit).2.2 other hother _ mem_cons_self)
        (h₁.holds other hother)
    · rw [mem_singleton.mp hother]
      exact hholds
  · rcases he' with ⟨k, hnil, he'⟩
    have hk : plan.segmentCount ≤ k := by
      have hlen := congrArg List.length hnil
      rw [length_drop, length_range, length_nil] at hlen
      omega
    rwa [take_of_length_le (by rw [← hready.count]; exact hk)] at he'

/-- Everything after the space has been made: the segments are filled, or the
    space is given back, or a frame was out of reach. -/
theorem prepareSpace_spec (htop : e.space.stackTop + pageSize = userLimit target)
    (arguments environment : List (List UInt8)) :
    wp (prepareSpace target file plan arguments environment)
      (fun _ e' => Filling info target others lost e' ∧
        ∀ segment ∈ plan.segments.entries, Holds target file segment e')
      (Released info file others lost) e := by
  have hword : userLimit target + 2 * pageSize < 2 ^ 64 := by cases target <;> decide
  have hsize : pageSize = 4096 := rfl
  unfold prepareSpace
  rw [wp_bind]
  refine wp_post (prepareSegments_spec hready hfile h) (fun heapNext e₁ h₁ => ?_)
  simp
  refine wp_orDestroy (fun _ _ h _ => h) ?_
  rw [onSpace, wp_mapError]
  refine wp_post (mapStack_filling h₁.filling) (fun _ e₂ h₂ => ?_)
  rcases h₂ with ⟨h₂, hstacked⟩
  rcases hstacked.grown h₁.filling with ⟨first, hfirst, hfree, hfree', hgrown⟩
  rw [h₁.top] at hfirst
  have hholds : ∀ segment ∈ plan.segments.entries, Holds target file segment e₂ := by
    intro segment hsegment
    refine (h₁.holds segment hsegment).grown hgrown (hready.sizes segment hsegment)
      fun address hle hlt hpage => ?_
    -- The pages of the stack were free.
    rcases (h₁.holds segment hsegment).pages address hle hlt with ⟨mapping, hmapping, _⟩
    rcases mapping_some hmapping with ⟨hmem, haddress⟩
    rcases hpage with hpage | hpage
    · exact hfree mapping hmem (haddress.trans hpage)
    · exact hfree' mapping hmem (haddress.trans hpage)
  refine wp_orDestroy (fun _ _ h _ => h) ?_
  rw [wp_mapError, wp_lift]
  refine ⟨fun stack hstack => ?_, fun _ _ => h₂⟩
  have hfits : Elf.alignUp heapNext pageSize ≠ none := by
    have := h₁.heap
    unfold Elf.alignUp Usize.checkedAdd
    rw [if_pos (by omega)]
    exact nofun
  simp [onSpace]
  refine ⟨fun hsome => ?_, fun _ => ⟨fun _ _ => ⟨h₂, hholds⟩, fun hnone => absurd hnone hfits⟩⟩
  rcases Elf.build_bounds hstack with ⟨hlowest, hhighest, _⟩
  have hbytes : Elf.maxStackBytes = 4096 := rfl
  have haligned : userLimit target % 4096 = 0 := by cases target <;> decide
  have hlen := wordBytes_length stack.words
  -- The words are on the upper page of the stack.
  have hpage : ∀ address, stack.stackPointer ≤ address →
      address < stack.stackPointer + 8 * stack.words.length → pageOf address = first + pageSize :=
    fun address hle hlt => pageOf_eq (by omega) (by omega) (by omega)
  refine wp_mono (loadWords_view h₂.paged h₂.live _ _) (fun _ e₃ h₃ => ?_)
    fun error e₃ h₃ hne => absurd (congrArg Error.addressSpace (h₃ ⟨?_, ?_⟩))
      (hne.resolve_left fun hnone => ?_)
  · refine ⟨fun _ _ => ⟨h₂.stored h₃, fun segment hsegment => ?_⟩, fun hnone => absurd hnone hfits⟩
    refine (hholds segment hsegment).stored h₃ (hready.sizes segment hsegment)
      fun address hle hlt hin => ?_
    rcases (h₁.holds segment hsegment).pages address hle hlt with ⟨mapping, hmapping, _⟩
    rcases mapping_some hmapping with ⟨hmem, haddress⟩
    exact hfree' mapping hmem (haddress.trans (hpage address hin.1 (by omega)))
  · intro address hle hlt hnone
    rcases hgrown.new address (.inr (hpage address hle hlt)) with ⟨mapping, hmapping, _⟩
    rw [hmapping] at hnone
    exact nomatch hnone
  · omega
  · rw [hnone] at hsome
    exact nomatch hsome

end Loading

end UserRuntime

end Norx
