import Norx.Memory.Frames

/-!
# Recording Ranges

What `push_range` records, as a list of pages. A page is `Usable` if it lies
inside one of the available regions, not below the first megabyte, and touches
no reserved region.

Ranges that meet end to start are merged, whichever regions they come from, so
a range as a whole may lie in no single region. Its pages each do, which is why
the record is about pages. Merging two ranges does not change the list of pages.

The list is what has been recorded as long as the ranges all find room in the
table. A range that finds none is counted in `skipped_ranges`, which never goes
down again.

## Theorems

* `usable_of_mem`: Page boundaries inside a range.
* `mem_usableIn`: The usable pages of a region, as a list.
* `pushRange_logged`: Recording a range.
-/

namespace Norx

namespace Memory

open Word List

/-- A page that may be handed out. -/
structure Usable (info : BootInfo) (frame : Nat) : Prop where
  aligned : frame % 4096 = 0
  low : 0x100000 ≤ frame
  inside : ∃ region ∈ info.available,
    region.base.toNat ≤ frame ∧ frame + 4096 ≤ region.base.toNat + region.length.toNat
  clear : ∀ reserved ∈ info.reservations,
    frame + 4096 ≤ reserved.base.toNat ∨ reserved.base.toNat + reserved.length.toNat ≤ frame

/-- A range all of whose pages are usable, away from the end of the address
    space. -/
structure RangeOk (info : BootInfo) (r : Range) : Prop where
  aligned : r.start.toNat % 4096 = 0
  fits : r.start.toNat + r.pages.toNat * 4096 ≤ 2 ^ 64 - 4096
  usable : ∀ k, k < r.pages.toNat → Usable info (r.start.toNat + k * 4096)

/-- Every range recorded is made of usable pages. -/
structure Sound (info : BootInfo) (s : State) : Prop where
  count : s.rangeCount ≤ maxRanges
  ranges : ∀ i, i < s.rangeCount → RangeOk info (s.ranges.get i)

/-- Sound, with nothing handed out yet. -/
structure Carved (info : BootInfo) (s : State) : Prop where
  sound : Sound info s
  nextRange : s.nextRange = 0
  nextFrame : s.nextFrame = 0
  returned : s.returnedCount = 0

/-! ### The arithmetic -/

theorem alignDown_toNat (value : UInt64) : (alignDown value).toNat = value.toNat / 4096 * 4096 :=
  clearLow_toNat (k := 12) (by decide) value

theorem alignUp_toNat (value : UInt64) (h : value.toNat ≤ 2 ^ 64 - 4096) :
    (alignUp value).toNat = (value.toNat + 4095) / 4096 * 4096 := by
  unfold alignUp
  have hmask : (pageSize - 1).toNat = 4095 := rfl
  cases hsum : Word.checkedAdd value (pageSize - 1) with
  | none =>
    rw [checkedAdd_eq_none] at hsum
    omega
  | some sum =>
    rw [checkedAdd_eq_some, hmask] at hsum
    exact (alignDown_toNat sum).trans (by rw [hsum])

theorem le_alignUp_toNat (value : UInt64) :
    value.toNat ≤ (alignUp value).toNat ∨ (alignUp value).toNat = 2 ^ 64 - 4096 := by
  by_cases h : value.toNat ≤ 2 ^ 64 - 4096
  · rw [alignUp_toNat value h]
    omega
  · right
    unfold alignUp
    have hmask : (pageSize - 1).toNat = 4095 := rfl
    have hnone : Word.checkedAdd value (pageSize - 1) = none := by
      rw [checkedAdd_eq_none]
      omega
    rw [hnone]
    rfl

variable {info : BootInfo}

theorem end_toNat {r : Range} (h : RangeOk info r) :
    r.end_.toNat = r.start.toNat + r.pages.toNat * 4096 := by
  have hfits := h.fits
  have hpage : pageSize.toNat = 4096 := rfl
  rw [Range.end_, saturatingAdd_toNat, saturatingMul_toNat, hpage]
  omega

/-- A page boundary inside a range is one of its pages. -/
theorem usable_of_mem {r : Range} (h : RangeOk info r) {frame : Nat} (haligned : frame % 4096 = 0)
    (hstart : r.start.toNat ≤ frame) (hend : frame < r.end_.toNat) : Usable info frame := by
  have hstart' := h.aligned
  rw [end_toNat h] at hend
  have hpage := h.usable ((frame - r.start.toNat) / 4096) (by omega)
  rwa [show r.start.toNat + (frame - r.start.toNat) / 4096 * 4096 = frame by omega] at hpage

section Meeting

variable {last : Range} {start pages : UInt64} (hlast : RangeOk info last)
  (hnew : RangeOk info { start, pages }) (hmeet : last.end_ = start)

include hlast hnew hmeet

/-- Two ranges that meet have room for the pages of both. -/
theorem merged_pages :
    (Word.saturatingAdd last.pages pages).toNat = last.pages.toNat + pages.toNat := by
  have hend := end_toNat hlast
  have hfits : start.toNat + pages.toNat * 4096 ≤ 2 ^ 64 - 4096 := hnew.fits
  rw [hmeet] at hend
  rw [saturatingAdd_toNat]
  omega

/-- Two ranges that meet, as one. -/
theorem rangeOk_merge :
    RangeOk info { last with pages := Word.saturatingAdd last.pages pages } := by
  have hstart : start.toNat = last.start.toNat + last.pages.toNat * 4096 := by
    rw [← hmeet, end_toNat hlast]
  have hfits : start.toNat + pages.toNat * 4096 ≤ 2 ^ 64 - 4096 := hnew.fits
  have hsum := merged_pages hlast hnew hmeet
  refine ⟨hlast.aligned, ?_, fun k hk => ?_⟩
  · change last.start.toNat + (Word.saturatingAdd last.pages pages).toNat * 4096 ≤ _
    rw [hsum]
    omega
  · rw [hsum] at hk
    by_cases hold : k < last.pages.toNat
    · exact hlast.usable k hold
    · -- The page is one of the new ones, counted from where they start.
      have hpage : Usable info (start.toNat + (k - last.pages.toNat) * 4096) :=
        hnew.usable (k - last.pages.toNat) (by change _ < pages.toNat; omega)
      rwa [show start.toNat + (k - last.pages.toNat) * 4096 = last.start.toNat + k * 4096 by
        omega] at hpage

end Meeting

/-! ### The pages of a region -/

/-- A region as the boot code records it: not empty, and with an end that is an
    address. -/
structure MemoryRegion.Proper (region : MemoryRegion) : Prop where
  nonempty : region.length ≠ 0
  fits : region.base.toNat + region.length.toNat < 2 ^ 64

instance (region : MemoryRegion) : Decidable region.Proper :=
  decidable_of_iff (region.length ≠ 0 ∧ region.base.toNat + region.length.toNat < 2 ^ 64)
    ⟨fun h => ⟨h.1, h.2⟩, fun h => ⟨h.nonempty, h.fits⟩⟩

/-- No reserved region touches the page. -/
def Clear (info : BootInfo) (page : Nat) : Prop :=
  ∀ reserved ∈ info.reservations, page + 4096 ≤ reserved.base.toNat ∨
    reserved.base.toNat + reserved.length.toNat ≤ page

instance (info : BootInfo) (page : Nat) : Decidable (Clear info page) :=
  inferInstanceAs (Decidable (∀ reserved ∈ info.reservations, _ ∨ _))

/-- A usable page of one region. -/
structure UsableIn (info : BootInfo) (region : MemoryRegion) (page : Nat) : Prop where
  aligned : page % 4096 = 0
  low : 0x100000 ≤ page
  base : region.base.toNat ≤ page
  inside : page + 4096 ≤ region.base.toNat + region.length.toNat
  clear : Clear info page

theorem usable_iff {page : Nat} :
    Usable info page ↔ ∃ region ∈ info.available, UsableIn info region page := by
  constructor
  · intro h
    rcases h.inside with ⟨region, hregion, hbase, hinside⟩
    exact ⟨region, hregion, h.aligned, h.low, hbase, hinside, h.clear⟩
  · rintro ⟨region, hregion, h⟩
    exact ⟨h.aligned, h.low, ⟨region, hregion, h.base, h.inside⟩, h.clear⟩

/-! ### Lists of pages -/

/-- So many pages from an address on. -/
def pagesFrom (start count : Nat) : List Nat := (List.range count).map fun k => start + k * 4096

theorem pagesFrom_append (start a b : Nat) :
    pagesFrom start (a + b) = pagesFrom start a ++ pagesFrom (start + a * 4096) b := by
  rw [pagesFrom, pagesFrom, range_add, map_append, map_map]
  refine congrArg (List.map _ _ ++ ·) (map_congr_left fun k _ => ?_)
  change start + (a + k) * 4096 = start + a * 4096 + k * 4096
  omega

theorem mem_pagesFrom {start count page : Nat} (haligned : start % 4096 = 0) :
    page ∈ pagesFrom start count ↔
      page % 4096 = 0 ∧ start ≤ page ∧ page < start + count * 4096 := by
  rw [pagesFrom, mem_map]
  constructor
  · rintro ⟨k, hk, rfl⟩
    rw [mem_range] at hk
    omega
  · rintro ⟨hpage, hlow, hhigh⟩
    refine ⟨(page - start) / 4096, mem_range.mpr ?_, ?_⟩
    · omega
    · omega

theorem pagesFrom_sorted (start count : Nat) : (pagesFrom start count).Pairwise (· < ·) := by
  refine List.Pairwise.map _ (fun a b hab => ?_) pairwise_lt_range
  omega

/-- The list of pages up to one of them, the page, and the rest. -/
theorem pagesFrom_split {start count k : Nat} (h : k < count) :
    pagesFrom start count = pagesFrom start k ++
      (start + k * 4096) :: pagesFrom (start + k * 4096 + 4096) (count - k - 1) := by
  have hcount : count = k + (1 + (count - k - 1)) := by omega
  conv_lhs => rw [hcount]
  rw [pagesFrom_append, pagesFrom_append]
  rfl

/-- Where the whole pages of a region start and how many there are, from the
    first megabyte on. -/
def firstPage (region : MemoryRegion) : Nat :=
  (max region.base.toNat 0x100000 + 4095) / 4096 * 4096

def pageCount (region : MemoryRegion) : Nat :=
  ((region.base.toNat + region.length.toNat) / 4096 * 4096 - firstPage region) / 4096

/-- The first page is the lowest page boundary that is not below the region or
    the first megabyte. -/
theorem firstPage_spec (region : MemoryRegion) :
    firstPage region % 4096 = 0 ∧ max region.base.toNat 0x100000 ≤ firstPage region ∧
      ∀ page, page % 4096 = 0 → max region.base.toNat 0x100000 ≤ page →
        firstPage region ≤ page := by
  unfold firstPage
  refine ⟨by omega, by omega, fun page haligned hpage => by omega⟩

/-- The usable pages of a region, in order. -/
def usableIn (info : BootInfo) (region : MemoryRegion) : List Nat :=
  (pagesFrom (firstPage region) (pageCount region)).filter fun page => decide (Clear info page)

theorem mem_usableIn {region : MemoryRegion} {page : Nat} :
    page ∈ usableIn info region ↔ UsableIn info region page := by
  rcases firstPage_spec region with ⟨hfirst, hlow, hleast⟩
  rw [usableIn, mem_filter, decide_eq_true_iff, mem_pagesFrom hfirst, pageCount]
  constructor
  · rintro ⟨⟨haligned, hpage, hhigh⟩, hclear⟩
    exact ⟨haligned, by omega, by omega, by omega, hclear⟩
  · rintro ⟨haligned, hmega, hbase, hinside, hclear⟩
    have hpage := hleast page haligned (Nat.max_le.mpr ⟨hbase, hmega⟩)
    exact ⟨⟨haligned, hpage, by omega⟩, hclear⟩

theorem usableIn_sorted (info : BootInfo) (region : MemoryRegion) :
    (usableIn info region).Pairwise (· < ·) :=
  (pagesFrom_sorted _ _).filter _

/-! ### Recording ranges -/

namespace Range

/-- The pages of a range. -/
def frames (r : Range) : List Nat := pagesFrom r.start.toNat r.pages.toNat

end Range

/-- The pages of all ranges, in order. -/
def recorded (s : State) : List Nat := (s.ranges.leading s.rangeCount).flatMap Range.frames

/-- What has been recorded, if nothing had to be left out for want of room: the
    pages, with their number, in ranges that are not empty. -/
structure Records (s : State) (pages : List Nat) : Prop where
  exact_ : recorded s = pages
  number : s.usablePages.toNat = min pages.length (2 ^ 64 - 1)
  positive : ∀ i, i < s.rangeCount → (s.ranges.get i).pages ≠ 0

theorem pagesFrom_length (start count : Nat) : (pagesFrom start count).length = count := by
  rw [pagesFrom, length_map, length_range]

variable {pages : UInt64}

theorem saturating_sum {total : UInt64} {n : Nat} (h : total.toNat = min n (2 ^ 64 - 1)) :
    (Word.saturatingAdd total pages).toNat = min (n + pages.toNat) (2 ^ 64 - 1) := by
  rw [saturatingAdd_toNat]
  omega

theorem saturating_ne_zero {a b : UInt64} (h : b ≠ 0) : Word.saturatingAdd a b ≠ 0 := by
  have hb : b.toNat ≠ 0 := fun hzero => h (UInt64.toNat_inj.mp hzero)
  intro hzero
  have hnat : (Word.saturatingAdd a b).toNat = 0 := by
    rw [hzero]
    rfl
  rw [saturatingAdd_toNat] at hnat
  omega

/-- The ranges recorded are sound, nothing is handed out yet, and the list is what
    has been recorded, unless a range found no room. -/
structure Logged (info : BootInfo) (s : State) (known : List Nat) : Prop where
  carved : Carved info s
  records : s.skippedRanges = 0 → Records s known

variable {s : State} {known : List Nat}

/-- A range that was left out. -/
theorem logged_skipped (h : Carved info s) :
    Logged info { s with skippedRanges := Word.saturatingAdd s.skippedRanges 1 } known :=
  ⟨⟨⟨h.sound.count, h.sound.ranges⟩, h.nextRange, h.nextFrame, h.returned⟩,
    fun hzero => absurd hzero (saturating_ne_zero (by decide))⟩

/-- A range put behind some of those recorded. -/
theorem logged_put (h : Logged info s known) {i : Nat} (hi : i ≤ s.rangeCount)
    (hroom : i < maxRanges) {range : Range} (hrange : RangeOk info range) (hsome : range.pages ≠ 0)
    {start : Nat} (hframes : recorded s = known →
      (s.ranges.leading i).flatMap Range.frames ++ range.frames
        = known ++ pagesFrom start pages.toNat) :
    Logged info
      { s with
        ranges := s.ranges.set i range
        rangeCount := i + 1
        usablePages := Word.saturatingAdd s.usablePages pages }
      (known ++ pagesFrom start pages.toNat) := by
  refine ⟨⟨⟨hroom, fun j hj => ?_⟩, h.carved.nextRange, h.carved.nextFrame, h.carved.returned⟩,
    fun hall => ⟨?_, ?_, fun j hj => ?_⟩⟩
  · change j < i + 1 at hj
    rw [Slots.get_set _ _ hroom]
    split_ifs with hij
    · exact hrange
    · exact h.carved.sound.ranges j (by omega)
  · change ((s.ranges.set i range).leading (i + 1)).flatMap Range.frames = _
    rw [Slots.leading_succ _ hroom, Slots.leading_set _ _ (le_refl _), Slots.get_set_self _ _ hroom,
      flatMap_append, flatMap_singleton]
    exact hframes (h.records hall).exact_
  · rw [length_append, pagesFrom_length]
    exact saturating_sum (h.records hall).number
  · change j < i + 1 at hj
    change ((s.ranges.set i range).get j).pages ≠ 0
    rw [Slots.get_set _ _ hroom]
    split_ifs with hij
    · exact hsome
    · exact (h.records hall).positive j (by omega)

/-- Recording usable pages. -/
theorem pushRange_logged (h : Logged info s known) {start : UInt64}
    (hnew : RangeOk info { start, pages }) (hnone : pages ≠ 0) :
    Logged info (pushRange start pages s) (known ++ pagesFrom start.toNat pages.toNat) := by
  have hcount := h.carved.sound.count
  rw [pushRange, if_neg hnone]
  dsimp only
  split_ifs with hmerge hroom
  · obtain ⟨k, hk⟩ := Nat.exists_eq_succ_of_ne_zero hmerge.1
    have hlast := h.carved.sound.ranges k (by omega)
    have hmeet := hmerge.2
    rw [hk, Nat.succ_sub_one] at hmeet ⊢
    refine logged_put h (by omega) (by omega) (rangeOk_merge hlast hnew hmeet)
      (saturating_ne_zero hnone) fun hexact => ?_
    rw [recorded, hk, Slots.leading_succ _ (by omega), flatMap_append,
      flatMap_singleton] at hexact
    rw [← hexact, append_assoc, Range.frames, merged_pages hlast hnew hmeet,
      pagesFrom_append, ← hmeet, end_toNat hlast]
    rfl
  · exact logged_put h (le_refl _) hroom hnew hnone fun hexact => congrArg (· ++ _) hexact
  · exact logged_skipped h.carved

end Memory

end Norx
