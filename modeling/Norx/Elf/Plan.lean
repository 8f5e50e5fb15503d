import Norx.Elf.Parse

/-!
# The Plan of an Image

What the parser accepts. The program headers of an image are described on their
own, as numbers at fixed positions; the plan of an accepted image has one
segment for each loadable header, in order, with the header's values.

The loop is followed by what it has read so far (`Loading`): the plan holds the
segments of the loadable headers among those. A turn adds one, and the checks of
that turn are what `SegmentOk` and the overlap test need. None of the sums and
differences the parser computes without a check leaves the range of a word, and
none of its reads leaves the image, since the table of headers ends inside it.

## Main definitions

* `word`, `ProgramHeader`, `loadHeaders`: The headers of an image.
* `SegmentOk`, `Planned`: A well-formed segment, and a well-formed plan.

## Theorems

* `parse_ends`, `parse_sound`: The parser does not panic, and its plan is well formed.
-/

namespace Norx

namespace Elf

open Slots

/-! ### The headers of an image -/

/-- The number in `n` bytes of the image. -/
def word (image : List UInt8) (offset n : Nat) : Nat := leNat ((image.drop offset).take n)

structure ProgramHeader where
  kind : Nat
  flags : Nat
  fileOffset : Nat
  virtualAddress : Nat
  fileSize : Nat
  memorySize : Nat

def programHeader (image : List UInt8) (at_ : Nat) : ProgramHeader :=
  { kind := word image at_ 4, flags := word image (at_ + 4) 4, fileOffset := word image (at_ + 8) 8,
    virtualAddress := word image (at_ + 16) 8, fileSize := word image (at_ + 32) 8,
    memorySize := word image (at_ + 40) 8 }

/-- The program header of a number, from where the file header says they are. -/
def headerAt (image : List UInt8) (index : Nat) : ProgramHeader :=
  programHeader image (word image 32 8 + index * programHeaderSize)

/-- The loadable ones among some program headers. -/
def loadable (image : List UInt8) (indices : List Nat) : List ProgramHeader :=
  (indices.map (headerAt image)).filter fun header => decide (header.kind = ptLoad)

/-- The loadable program headers of an image, in order. -/
def loadHeaders (image : List UInt8) : List ProgramHeader :=
  loadable image (List.range (word image 56 2))

/-- The segment a loadable header stands for. -/
def segmentOf (loadBias : Nat) (header : ProgramHeader) : SegmentPlan :=
  { virtualStart := loadBias + alignDown header.virtualAddress pageSize
    virtualEnd := loadBias +
      alignDown (header.virtualAddress + header.memorySize + (pageSize - 1)) pageSize
    fileOffset := header.fileOffset
    fileSize := header.fileSize
    memorySize := header.memorySize
    zeroFill := header.memorySize - header.fileSize
    flags := SegmentFlags.fromRaw header.flags }

/-! ### Well-formed plans -/

structure SegmentOk (target : Machine) (image : List UInt8) (segment : SegmentPlan) : Prop where
  startAligned : segment.virtualStart % pageSize = 0
  endAligned : segment.virtualEnd % pageSize = 0
  nonempty : segment.virtualStart < segment.virtualEnd
  low : pageSize ≤ segment.virtualStart
  high : segment.virtualEnd ≤ userLimit target
  writeXorExecute : ¬ (segment.flags.writable = true ∧ segment.flags.executable = true)
  inFile : segment.fileOffset + segment.fileSize ≤ image.length
  sizes : segment.fileSize + segment.zeroFill = segment.memorySize

namespace SegmentPlan

def pages (segment : SegmentPlan) : Nat := (segment.virtualEnd - segment.virtualStart) / pageSize

/-- No address is in both segments. -/
def Apart (a b : SegmentPlan) : Prop :=
  a.virtualEnd ≤ b.virtualStart ∨ b.virtualEnd ≤ a.virtualStart

end SegmentPlan

/-- A plan with a well-formed segment for each loadable header of the image. -/
structure Planned (target : Machine) (image : List UInt8) (loadBias : Nat) (plan : LoadPlan) :
    Prop where
  base : plan.base = loadBias
  biasAligned : loadBias % pageSize = 0
  segments : plan.segments.entries = (loadHeaders image).map (segmentOf loadBias)
  count : plan.segmentCount = (loadHeaders image).length
  some_ : 1 ≤ plan.segmentCount
  few : plan.segmentCount ≤ maxLoadSegments
  each : ∀ segment ∈ plan.segments.entries, SegmentOk target image segment
  apart : plan.segments.entries.Pairwise SegmentPlan.Apart
  pages : plan.totalPages = (plan.segments.entries.map SegmentPlan.pages).sum
  bounded : plan.totalPages ≤ maxLoadPages
  entry : plan.entry = loadBias + word image 24 8
  executable : ∃ segment ∈ plan.segments.entries, segment.flags.executable = true ∧
    segment.virtualStart ≤ plan.entry ∧ plan.entry < segment.virtualEnd

/-! ### Reading fields -/

variable {image : List UInt8} {Q : Nat → Prop}

@[simp] theorem ends_readLe {n : Nat} {offset : Nat} :
    Checked.Ends (readLe n image offset) Q ↔
      offset + n < 2 ^ 64 ∧ (offset + n ≤ image.length → Q (word image offset n)) := by
  simp [readLe, word]

@[simp] theorem ends_usizeFromU64 {value : Nat} :
    Checked.Ends (usizeFromU64 value) Q ↔ (value < 2 ^ 64 → Q value) := by
  simp [usizeFromU64, Nat.lt_succ_iff]

theorem alignDown_page (value : Nat) : alignDown value pageSize = value / 4096 * 4096 := rfl

theorem alignUp_eq_some {value result : Nat} (h : alignUp value pageSize = some result) :
    result = alignDown (value + (pageSize - 1)) pageSize := by
  rcases Option.map_eq_some_iff.mp h with ⟨sum, hsum, rfl⟩
  rw [(Usize.checkedAdd_eq_some.mp hsum).1]

/-! ### The parts of the parser -/

/-- What the file header says, once it is accepted. -/
structure HeaderOk (image : List UInt8) (loadBias : Nat) (header : Header) : Prop where
  entryRaw : header.entryRaw = word image 24 8
  offset : header.programHeaderOffset = word image 32 8
  count : header.programHeaderCount = word image 56 2
  fits : header.programHeaderOffset + header.programHeaderCount * programHeaderSize < 2 ^ 64
  inside : header.programHeaderOffset + header.programHeaderCount * programHeaderSize
    ≤ image.length
  aligned : loadBias % pageSize = 0

theorem readHeader_ends (image : List UInt8) (machine : Machine) (loadBias : Nat) :
    Checked.Ends (readHeader image machine loadBias) (HeaderOk image loadBias) := by
  rw [readHeader, ends_bind, ends_reject]
  intro hlen
  -- All fields of the file header lie in its 64 bytes.
  have hlen : 64 ≤ image.length := Nat.not_lt.mp hlen
  have hmagic : 4 ≤ image.length ∧ 4 < image.length ∧ 5 < image.length ∧ 6 < image.length := by
    omega
  simp [readU16, readU64, hmagic]
  intros
  exact ⟨rfl, rfl, rfl, ‹_›, ‹_›, ‹_›⟩

theorem readSegment_ends {target : Machine} {loadBias offset : Nat}
    (haligned : loadBias % pageSize = 0) (hfits : offset + 56 < 2 ^ 64) :
    Checked.Ends (readSegment target image loadBias offset) fun segment =>
      segment = segmentOf loadBias (programHeader image offset) ∧
        SegmentOk target image segment ∧ segment.fileOffset + segment.fileSize < 2 ^ 64 := by
  have hround (value : Nat) : (loadBias + alignDown value pageSize) % pageSize = 0 := by
    change loadBias % 4096 = 0 at haligned
    change _ % 4096 = 0
    rw [alignDown_page]
    omega
  have hfield {at_ : Nat} (hin : at_ ≤ 56) : offset + at_ < 2 ^ 64 := by omega
  simp [readSegment, readU32, readU64, hfield, Nat.add_assoc, -Nat.reducePow]
  intro _ _ _ _ _ _ hsizes _ _ hfit hinFile _ _ _ _ memoryEnd hup _ hlow hnonempty hhigh hflags
  rw [alignUp_eq_some hup] at hnonempty hhigh ⊢
  exact ⟨hsizes, rfl, ⟨hround _, hround _, Nat.add_lt_add_left hnonempty _, hlow, hhigh,
    by simpa using hflags, hinFile, Nat.add_sub_cancel' hsizes⟩, hfit⟩

/-! ### The loop over the headers -/

/-- The plan after some of the headers. -/
structure Loading (target : Machine) (image : List UInt8) (loadBias entry : Nat)
    (done : List Nat) (plan : LoadPlan) : Prop where
  base : plan.base = loadBias
  entry : plan.entry = entry
  segments : plan.segments.entries = (loadable image done).map (segmentOf loadBias)
  count : plan.segmentCount = (loadable image done).length
  few : plan.segmentCount ≤ maxLoadSegments
  free : ∀ i, plan.segmentCount ≤ i → plan.segments.get i = none
  fits : ∀ segment ∈ plan.segments.entries, segment.fileOffset + segment.fileSize < 2 ^ 64
  each : ∀ segment ∈ plan.segments.entries, SegmentOk target image segment
  apart : plan.segments.entries.Pairwise SegmentPlan.Apart
  pages : plan.totalPages = (plan.segments.entries.map SegmentPlan.pages).sum
  bounded : plan.totalPages ≤ maxLoadPages

section Loop

variable {target : Machine} {image : List UInt8} {loadBias entry : Nat} {done : List Nat}
  {plan : LoadPlan}

/-- A table has an element that passes a test exactly if one of its entries
    does. -/
theorem any_slot {n : Nat} {t : Slots n (Option SegmentPlan)} {p : SegmentPlan → Bool} :
    (t.any fun slot => slot.any p) = true ↔ ∃ segment ∈ t.entries, p segment = true := by
  rw [any_eq_true]
  constructor
  · rintro ⟨i, _, hi⟩
    cases hget : t.get i with
    | none =>
      rw [hget] at hi
      cases hi
    | some segment =>
      rw [hget] at hi
      exact ⟨segment, mem_entries.mpr ⟨i, hget⟩, hi⟩
  · rintro ⟨segment, hsegment, hp⟩
    rcases mem_entries.mp hsegment with ⟨i, hi⟩
    by_cases hlt : i < n
    · refine ⟨i, hlt, ?_⟩
      rw [hi]
      exact hp
    · rw [get_of_ge _ (Nat.not_lt.mp hlt)] at hi
      cases hi

theorem loadable_append (image : List UInt8) (done : List Nat) (index : Nat) :
    loadable image (done ++ [index]) = loadable image done ++ loadable image [index] := by
  rw [loadable, List.map_append, List.filter_append]
  rfl

theorem push_ends (h : Loading target image loadBias entry done plan)
    (hroom : plan.segmentCount ≠ maxLoadSegments) {index : Nat} {header : ProgramHeader}
    (hload : loadable image [index] = [header])
    (hok : SegmentOk target image (segmentOf loadBias header))
    (hfits : header.fileOffset + header.fileSize < 2 ^ 64) :
    Checked.Ends (plan.push (segmentOf loadBias header))
      (Loading target image loadBias entry (done ++ [index])) := by
  have hless : plan.segmentCount < maxLoadSegments := Nat.lt_of_le_of_ne h.few hroom
  simp only [LoadPlan.push, hless, if_true, ends_bind, ends_reject, ends_sub, ends_require,
    Usize.checkedAdd_eq_some, and_imp, forall_eq', ends_pure]
  refine fun hoverlap => ⟨Nat.le_of_lt hok.nonempty, fun _ hbounded => ?_⟩
  have hentries : (plan.segments.set plan.segmentCount (some (segmentOf loadBias header))).entries
      = plan.segments.entries ++ [segmentOf loadBias header] :=
    entries_push hless h.free _
  have hloaded : loadable image (done ++ [index]) = loadable image done ++ [header] := by
    rw [loadable_append, hload]
  refine ⟨h.base, h.entry, ?_, ?_, hless, ?_, ?_, ?_, ?_, ?_, Nat.not_lt.mp hbounded⟩
  · rw [hentries, hloaded, List.map_append, h.segments]
    rfl
  · rw [hloaded, List.length_append, ← h.count]
    rfl
  · intro i hi
    change plan.segmentCount + 1 ≤ i at hi
    rw [get_set_other _ _ (by omega)]
    exact h.free i (by omega)
  · rw [hentries, List.forall_mem_append, List.forall_mem_singleton]
    exact ⟨h.fits, hfits⟩
  · rw [hentries, List.forall_mem_append, List.forall_mem_singleton]
    exact ⟨h.each, hok⟩
  · rw [hentries, List.pairwise_append]
    refine ⟨h.apart, List.pairwise_singleton _ _, fun previous hprevious segment hsegment => ?_⟩
    rw [List.mem_singleton.mp hsegment]
    -- The two would overlap otherwise, and the test would have found it.
    by_contra hnot
    rw [SegmentPlan.Apart, not_or, Nat.not_le, Nat.not_le] at hnot
    exact hoverlap (any_slot.mpr ⟨previous, hprevious, decide_eq_true hnot⟩)
  · rw [hentries, List.map_append, List.sum_append, ← h.pages]
    rfl

theorem addSegment_ends (haligned : loadBias % pageSize = 0)
    (h : Loading target image loadBias entry done plan) {index count : Nat} (hindex : index < count)
    (hfits : word image 32 8 + count * programHeaderSize < 2 ^ 64) :
    Checked.Ends (addSegment target image loadBias (word image 32 8) plan index)
      (Loading target image loadBias entry (done ++ [index])) := by
  simp only [addSegment, readU32, programHeaderSize, ends_bind, ends_mul, ends_add, ends_readLe,
    ends_ite, ends_pure, ends_reject] at hfits ⊢
  refine ⟨by omega, by omega, by omega, fun _ => ⟨fun hother => ?_, fun hload hroom => ?_⟩⟩
  · -- A header of another kind changes nothing.
    have hnone : loadable image [index] = [] := by
      rw [loadable, List.map_singleton, List.filter_cons]
      exact if_neg fun hyes => hother (of_decide_eq_true hyes)
    have hloaded : loadable image (done ++ [index]) = loadable image done := by
      rw [loadable_append, hnone, List.append_nil]
    exact ⟨h.base, h.entry, hloaded ▸ h.segments, hloaded ▸ h.count, h.few, h.free,
      h.fits, h.each, h.apart, h.pages, h.bounded⟩
  · have hone : loadable image [index] = [headerAt image index] := by
      rw [loadable, List.map_singleton, List.filter_cons]
      exact if_pos (decide_eq_true (not_not.mp hload))
    refine ends_mono (readSegment_ends haligned (by omega)) fun segment hsegment => ?_
    rcases hsegment with ⟨rfl, hok, hfit⟩
    exact push_ends h hroom hone hok hfit

end Loop

/-- The plan, with its segments in its first slots. -/
theorem parse_ends (target : Machine) (image : List UInt8) (machine : Machine) (loadBias : Nat) :
    Checked.Ends (parse target image machine loadBias) fun plan =>
      Planned target image loadBias plan ∧
        (∀ i, plan.segmentCount ≤ i → plan.segments.get i = none) ∧
        ∀ segment ∈ plan.segments.entries, segment.fileOffset + segment.fileSize < 2 ^ 64 := by
  refine ends_then (readHeader_ends image machine loadBias) fun header hheader => ?_
  simp only [ends_bind, ends_usizeFromU64, ends_require, Usize.checkedAdd_eq_some, and_imp,
    forall_eq', ends_reject, ends_pure]
  intro _ _
  have hfits := hheader.fits
  rw [hheader.offset] at hfits
  have hstart : Loading target image loadBias (loadBias + header.entryRaw) []
      { base := loadBias, entry := loadBias + header.entryRaw, segmentCount := 0, totalPages := 0,
        segments := Slots.replicate maxLoadSegments none } := by
    refine ⟨rfl, rfl, rfl, rfl, Nat.zero_le _, fun i _ => get_replicate_default i, ?_, ?_, ?_,
      ?_, Nat.zero_le _⟩
    · rintro _ ⟨⟩
    · rintro _ ⟨⟩
    · exact List.Pairwise.nil
    · rfl
  have hloop := ends_foldlM (Loading target image loadBias (loadBias + header.entryRaw))
    (List.range header.programHeaderCount)
    (fun done index plan hindex hplan => addSegment_ends hheader.aligned hplan
      (List.mem_range.mp hindex) hfits) _ [] _ (fun _ hi => hi) hstart
  rw [← hheader.offset] at hloop
  refine ends_mono hloop fun plan hplan hsome hentry => ?_
  rw [hheader.count] at hplan
  rw [Bool.not_eq_false, any_slot] at hentry
  rcases hentry with ⟨segment, hsegment, hexecutes⟩
  rw [SegmentPlan.executes, Bool.and_eq_true, Bool.and_eq_true, decide_eq_true_iff,
    decide_eq_true_iff] at hexecutes
  refine ⟨⟨hplan.base, hheader.aligned, hplan.segments, hplan.count,
    Nat.one_le_iff_ne_zero.mpr hsome, hplan.few, hplan.each, hplan.apart, hplan.pages, hplan.bounded,
    ?_, ⟨segment, hsegment, hexecutes.1.1, hexecutes.1.2, hexecutes.2⟩⟩, hplan.free,
    hplan.fits⟩
  rw [hplan.entry, hheader.entryRaw]

/-- On every image, machine and bias the parser ends without leaving the image
    and without overflow, and a plan it returns is well formed: one segment for
    each loadable header. -/
theorem parse_sound (target : Machine) (image : List UInt8) (machine : Machine) (loadBias : Nat) :
    parse target image machine loadBias ≠ .error .panic ∧
      ∀ plan, parse target image machine loadBias = .ok plan →
        Planned target image loadBias plan :=
  have hends := parse_ends target image machine loadBias
  ⟨hends.no_panic, fun _ hplan => (hends.of_ok hplan).1⟩

end Elf

end Norx
