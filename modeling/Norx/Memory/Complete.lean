import Norx.Memory.Handout

/-!
# Handing Out Every Frame

Which frames `alloc_frame` gives out if nothing is ever taken back. The position
in the ranges only moves up. A page that comes later in the list of recorded
pages than a higher one is passed over, so what is handed out is what `climb`
keeps of the list: the pages that are above all those before them. All of them
are kept exactly if the list goes up, which is a condition on the memory map: of
two regions, the earlier one has the lower usable pages.

## Theorems

* `climb_eq_self_iff`: `climb` keeps everything exactly if the list goes up.
* `allocRange_climb`, `drain_climb`: The frames handed out are those `climb`
  keeps.
* `frames_complete_iff`: Every usable page is handed out exactly if the regions
  come in order.
-/

namespace Norx

namespace Memory

open List

/-! ### The position moves up -/

/-- The pages of a list that a position that only moves up stops at. -/
def climb : Nat → List Nat → List Nat
  | _, [] => []
  | position, page :: pages =>
    if position ≤ page then page :: climb (page + 4096) pages else climb position pages

/-- Pages below the position are passed over. -/
theorem climb_skip {position : Nat} {passed : List Nat} (h : ∀ page ∈ passed, page < position)
    (pages : List Nat) : climb position (passed ++ pages) = climb position pages := by
  induction passed with
  | nil => rfl
  | cons page rest ih =>
    have hpage := h page mem_cons_self
    rw [cons_append, climb, if_neg (by omega)]
    exact ih fun p hp => h p (mem_cons_of_mem _ hp)

theorem climb_sublist (pages : List Nat) : ∀ position, (climb position pages).Sublist pages := by
  induction pages with
  | nil => exact fun _ => List.Sublist.slnil
  | cons page rest ih =>
    intro position
    rw [climb]
    split_ifs with h
    · exact (ih _).cons_cons page
    · exact (ih _).cons page

/-- Everything is kept exactly if it goes up from the position. -/
theorem climb_eq_self_iff {pages : List Nat} (haligned : ∀ page ∈ pages, page % 4096 = 0) :
    ∀ position, climb position pages = pages ↔
      (∀ page ∈ pages, position ≤ page) ∧ pages.Pairwise (· < ·) := by
  induction pages with
  | nil =>
    intro position
    simp [climb]
  | cons page rest ih =>
    intro position
    have hpage := haligned page mem_cons_self
    have hrest (p : Nat) (hp : p ∈ rest) : p % 4096 = 0 := haligned p (mem_cons_of_mem _ hp)
    -- Above a page, at a page boundary, is at least a page above.
    have habove : (∀ p ∈ rest, page + 4096 ≤ p) ↔ ∀ p ∈ rest, page < p := by
      refine forall₂_congr fun p hp => ?_
      have := hrest p hp
      omega
    rw [pairwise_cons, forall_mem_cons, climb]
    by_cases hup : position ≤ page
    · rw [if_pos hup, List.cons.injEq, ih hrest (page + 4096), habove]
      constructor
      · rintro ⟨_, hall, hsorted⟩
        exact ⟨⟨hup, fun p hp => Nat.le_trans hup (Nat.le_of_lt (hall p hp))⟩, hall, hsorted⟩
      · rintro ⟨_, hall, hsorted⟩
        exact ⟨rfl, hall, hsorted⟩
    · rw [if_neg hup]
      constructor
      · intro heq
        -- A page was passed over, so there is one less.
        have hlen := (climb_sublist rest position).length_le
        rw [heq, length_cons] at hlen
        omega
      · rintro ⟨⟨hpos, _⟩, _⟩
        exact absurd hpos hup

/-! ### Calling the allocator until it is empty -/

/-- Call `alloc_frame` until it returns nothing; the frames it returned. Nothing
    if the fuel is used up before. -/
def drain : Nat → State → Option (List UInt64)
  | 0, s => if (allocFrame s).1 = none then some [] else none
  | fuel + 1, s =>
    match allocFrame s with
    | (none, _) => some []
    | (some frame, s) => (drain fuel s).map (frame :: ·)

/-- Nothing has been taken back, and no range is empty. -/
structure Draining (info : BootInfo) (s : State) : Prop where
  sound : Sound info s
  returned : s.returnedCount = 0
  aligned : s.nextFrame.toNat % 4096 = 0
  positive : ∀ i, i < s.rangeCount → (s.ranges.get i).pages ≠ 0

/-- The pages of the ranges that have not been gone through. -/
def remaining (s : State) : List Nat :=
  ((s.ranges.leading s.rangeCount).drop s.nextRange).flatMap Range.frames

variable {info : BootInfo}

theorem draining_kept {s s' : State} (h : Draining info s) (hkept : Kept s s')
    (haligned : s'.nextFrame.toNat % 4096 = 0) : Draining info s' := by
  refine ⟨sound_kept h.sound hkept, hkept.returnedCount.trans h.returned, haligned, fun i hi => ?_⟩
  rw [hkept.ranges]
  exact h.positive i (hkept.rangeCount ▸ hi)

/-- The first page of a range from a position on, and where the position is
    then. -/
theorem climb_range {range : Range} (hrange : RangeOk info range) {position : Nat}
    (haligned : position % 4096 = 0) (hroom : max position range.start.toNat < range.end_.toNat)
    (rest : List Nat) :
    climb position (range.frames ++ rest) = max position range.start.toNat ::
      climb (max position range.start.toNat + 4096) (range.frames ++ rest) := by
  have hstart := hrange.aligned
  rw [end_toNat hrange] at hroom
  obtain ⟨k, hk⟩ : ∃ k, max position range.start.toNat = range.start.toNat + k * 4096 :=
    ⟨(max position range.start.toNat - range.start.toNat) / 4096, by omega⟩
  have hbefore (page : Nat) (hpage : page ∈ pagesFrom range.start.toNat k) :
      page < position := by
    rw [mem_pagesFrom hstart] at hpage
    omega
  rw [hk, Range.frames, pagesFrom_split (show k < range.pages.toNat by omega), append_assoc,
    climb_skip hbefore, cons_append, climb, if_pos (by omega)]
  -- The page itself is below the new position, as those before it are.
  have hpassed (page : Nat)
      (hpage : page ∈ pagesFrom range.start.toNat k ++ [range.start.toNat + k * 4096]) :
      page < range.start.toNat + k * 4096 + 4096 := by
    rcases mem_append.mp hpage with hpage | hpage
    · have := hbefore page hpage
      omega
    · rw [mem_singleton.mp hpage]
      omega
  refine congrArg _ ?_
  rw [← climb_skip hpassed, append_assoc]
  rfl

theorem allocRange_climb : ∀ (turns : Nat) (s : State), Draining info s →
    turns = s.rangeCount - s.nextRange →
      (∀ s', allocRange turns s = (none, s') → climb s.nextFrame.toNat (remaining s) = []) ∧
      ∀ frame s', allocRange turns s = (some frame, s') → Draining info s' ∧
        climb s.nextFrame.toNat (remaining s)
          = frame.toNat :: climb s'.nextFrame.toNat (remaining s') := by
  intro turns
  induction turns with
  | zero =>
    intro s h hturns
    refine ⟨fun s' _ => ?_, by rintro _ _ ⟨⟩⟩
    have hnone : remaining s = [] := by
      have hlen := (length_take_le s.rangeCount (List.ofFn s.ranges))
      rw [remaining, Slots.leading, drop_eq_nil_of_le (by omega)]
      rfl
    rw [hnone, climb]
  | succ turns ih =>
    intro s h hturns
    have hleft : s.nextRange < s.rangeCount := by omega
    have hrange := h.sound.ranges s.nextRange hleft
    have hstart := hrange.aligned
    have haligned := h.aligned
    have hremaining : remaining s = (s.ranges.get s.nextRange).frames ++
        ((s.ranges.leading s.rangeCount).drop (s.nextRange + 1)).flatMap Range.frames := by
      rw [remaining, Slots.drop_leading _ hleft h.sound.count, flatMap_cons]
    rcases enterRange_spec (s.ranges.get s.nextRange) s with ⟨hkept, hposition⟩
    have hnextRange : (enterRange (s.ranges.get s.nextRange) s).nextRange = s.nextRange := by
      unfold enterRange
      split_ifs
      · rfl
      · rfl
    rw [allocRange, if_pos hleft]
    dsimp only
    generalize enterRange (s.ranges.get s.nextRange) s = s₁ at hkept hposition hnextRange ⊢
    have haligned₁ : s₁.nextFrame.toNat % 4096 = 0 := by omega
    have hdraining := draining_kept h hkept haligned₁
    by_cases hroom : s₁.nextFrame < (s.ranges.get s.nextRange).end_
    · rw [if_pos hroom]
      rw [UInt64.lt_iff_toNat_lt] at hroom
      refine ⟨by rintro _ ⟨⟩, fun frame s' hsome => ?_⟩
      injection hsome with hframe hstate
      injection hframe with hframe
      subst hframe hstate
      have hpass := passFrame_spec hrange haligned₁ (by omega) hroom
      have hnext : (passFrame s₁).nextFrame.toNat = s₁.nextFrame.toNat + 4096 := by
        have hfits := hrange.fits
        have hend := end_toNat hrange
        rw [passFrame, UInt64.toNat_add, show pageSize.toNat = 4096 from rfl]
        omega
      have hsame : remaining (passFrame s₁) = remaining s := by
        have hstay : (passFrame s₁).nextRange = s₁.nextRange := by
          unfold passFrame
          rfl
        rw [remaining, remaining, hpass.kept.ranges, hkept.ranges, hpass.kept.rangeCount,
          hkept.rangeCount, hstay, hnextRange]
      refine ⟨draining_kept hdraining hpass.kept hpass.aligned, ?_⟩
      rw [hsame, hnext, hremaining, hposition]
      exact climb_range hrange haligned (by rw [← hposition]; exact hroom) _
    · rw [if_neg hroom]
      rw [UInt64.lt_iff_toNat_lt, end_toNat hrange] at hroom
      -- The range has a page, so the position was behind its start before.
      have hpages : (s.ranges.get s.nextRange).pages.toNat ≠ 0 := fun hzero =>
        h.positive s.nextRange hleft (UInt64.toNat_inj.mp hzero)
      have hpassed (page : Nat) (hpage : page ∈ (s.ranges.get s.nextRange).frames) :
          page < s.nextFrame.toNat := by
        rw [Range.frames, mem_pagesFrom hstart] at hpage
        omega
      have hrest := ih { s₁ with nextRange := s₁.nextRange + 1 }
        (draining_kept hdraining ⟨rfl, rfl, rfl, rfl⟩ haligned₁) (by
          change turns = s₁.rangeCount - (s₁.nextRange + 1)
          rw [hkept.rangeCount]
          omega)
      have hskip : climb s.nextFrame.toNat (remaining s) = climb s₁.nextFrame.toNat
          (remaining { s₁ with nextRange := s₁.nextRange + 1 }) := by
        rw [hremaining, climb_skip hpassed, remaining, hkept.ranges, hkept.rangeCount, hnextRange,
          show s₁.nextFrame.toNat = s.nextFrame.toNat by omega]
      rw [hskip]
      exact hrest

theorem allocFrame_climb {s : State} (h : Draining info s) :
    (∀ s', allocFrame s = (none, s') → climb s.nextFrame.toNat (remaining s) = []) ∧
      ∀ frame s', allocFrame s = (some frame, s') → Draining info s' ∧
        climb s.nextFrame.toNat (remaining s)
          = frame.toNat :: climb s'.nextFrame.toNat (remaining s') := by
  rw [allocFrame, if_neg (not_not.mpr h.returned)]
  exact allocRange_climb _ s h rfl

/-- The frames handed out are those the position stops at. -/
theorem drain_climb : ∀ (fuel : Nat) (s : State), Draining info s →
    (climb s.nextFrame.toNat (remaining s)).length ≤ fuel →
      (drain fuel s).map (·.map UInt64.toNat) = some (climb s.nextFrame.toNat (remaining s)) := by
  intro fuel
  induction fuel with
  | zero =>
    intro s h hlen
    rcases allocFrame_climb h with ⟨hnone, hsome⟩
    rcases hrun : allocFrame s with ⟨_ | frame, s'⟩
    · simp [drain, hrun, hnone s' hrun]
    · rw [(hsome frame s' hrun).2] at hlen
      cases hlen
  | succ fuel ih =>
    intro s h hlen
    rcases allocFrame_climb h with ⟨hnone, hsome⟩
    rcases hrun : allocFrame s with ⟨_ | frame, s'⟩
    · simp [drain, hrun, hnone s' hrun]
    · rcases hsome frame s' hrun with ⟨hdraining, hclimb⟩
      rw [hclimb] at hlen ⊢
      rcases Option.map_eq_some_iff.mp (ih s' hdraining (Nat.le_of_succ_le_succ hlen))
        with ⟨frames, hdrain, hframes⟩
      simp [drain, hrun, hdrain, ← hframes]

/-! ### The whole of memory -/

/-- No two available regions overlap. -/
def Apart (info : BootInfo) : Prop :=
  info.available.Pairwise fun a b =>
    a.base.toNat + a.length.toNat ≤ b.base.toNat ∨ b.base.toNat + b.length.toNat ≤ a.base.toNat

/-- Of two available regions, the earlier one has the lower usable pages. -/
def InOrder (info : BootInfo) : Prop :=
  info.available.Pairwise fun a b =>
    ∀ page, UsableIn info a page → ∀ other, UsableIn info b other → page < other

theorem nodup_of_apart (h : Apart info) : (info.available.flatMap (usableIn info)).Nodup := by
  rw [nodup_flatMap]
  refine ⟨fun region _ => (usableIn_sorted info region).imp fun hlt => Nat.ne_of_lt hlt,
    h.imp fun {a b} hapart page ha hb => ?_⟩
  have ha' := mem_usableIn.mp ha
  have hb' := mem_usableIn.mp hb
  have hbase := ha'.base
  have hinside := ha'.inside
  have hbase' := hb'.base
  have hinside' := hb'.inside
  omega

theorem sorted_iff_inOrder :
    (info.available.flatMap (usableIn info)).Pairwise (· < ·) ↔ InOrder info := by
  rw [pairwise_flatMap, InOrder]
  refine (and_iff_right fun region _ => usableIn_sorted info region).trans ?_
  simp only [mem_usableIn]

theorem mem_usable {page : Nat} :
    page ∈ info.available.flatMap (usableIn info) ↔ Usable info page := by
  rw [mem_flatMap, usable_iff]
  simp only [mem_usableIn]

/-- Different numbers below a bound are at most as many as the bound says. -/
theorem length_le_of_nodup {numbers : List Nat} {bound : Nat} (h : numbers.Nodup)
    (hbound : ∀ n ∈ numbers, n < bound) : numbers.length ≤ bound := by
  have hsub : numbers ⊆ List.range bound := fun n hn => mem_range.mpr (hbound n hn)
  have hle := (h.subperm hsub).length_le
  rwa [length_range] at hle

/-- On a memory map whose regions do not overlap and whose ranges all find room,
    calling `alloc_frame` until it returns nothing yields usable frames, none of
    them twice. It yields all of them, `usable_pages` in number, exactly if the
    regions come in order. -/
theorem frames_complete_iff (info : BootInfo) (s : State)
    (hmemory : ∀ region ∈ info.available, region.Proper)
    (hreserved : ∀ reserved ∈ info.reservations, reserved.Proper) (hapart : Apart info) :
    ∃ s', (∀ fuel, 2 ^ 64 ≤ fuel → init fuel info s = some (summary info s', s')) ∧
      ((summary info s').skippedRanges = 0 →
        ∃ frames, (∀ fuel, 2 ^ 64 ≤ fuel → drain fuel s' = some frames) ∧
          frames.Nodup ∧ (∀ frame ∈ frames, Usable info frame.toNat) ∧
          (((∀ page, Usable info page → ∃ frame ∈ frames, frame.toNat = page) ∧
            frames.length = (summary info s').usablePages.toNat) ↔ InOrder info)) := by
  have hfits (reserved : MemoryRegion) (hmem : reserved ∈ info.reservations) :
      reserved.base.toNat + reserved.length.toNat < 2 ^ 64 := (hreserved reserved hmem).fits
  rcases init_total hfits s with ⟨s', ⟨hcarved, hrecords⟩, hinit⟩
  refine ⟨s', hinit, fun hall => ?_⟩
  have hrecords := hrecords hall
  have hnodup := nodup_of_apart hapart
  have hbound (page : Nat) (hpage : page ∈ info.available.flatMap (usableIn info)) :
      page < 2 ^ 64 - 1 := by
    rcases (mem_usable.mp hpage).inside with ⟨region, hregion, _, hinside⟩
    have hregion := (hmemory region hregion).fits
    omega
  have hnumber := length_le_of_nodup hnodup hbound
  have hdraining : Draining info s' :=
    ⟨hcarved.sound, hcarved.returned, by rw [hcarved.nextFrame]; rfl, hrecords.positive⟩
  have hremaining : remaining s' = info.available.flatMap (usableIn info) := by
    rw [remaining, hcarved.nextRange, drop_zero, ← hrecords.exact_, recorded]
  have hposition : s'.nextFrame.toNat = 0 := by
    rw [hcarved.nextFrame]
    rfl
  have hsub := climb_sublist (info.available.flatMap (usableIn info)) 0
  have hlen := hsub.length_le
  have hdrain (fuel : Nat) (hle : 2 ^ 64 ≤ fuel) := drain_climb fuel s' hdraining
    (by rw [hremaining, hposition]; omega)
  rw [hremaining, hposition] at hdrain
  rcases Option.map_eq_some_iff.mp (hdrain _ (le_refl _)) with ⟨frames, hfirst, hframes⟩
  have hsame (fuel : Nat) (hle : 2 ^ 64 ≤ fuel) : drain fuel s' = some frames :=
    Option.map_injective (map_injective_iff.mpr fun _ _ => UInt64.toNat_inj.mp)
      ((hdrain fuel hle).trans (hdrain _ (le_refl _)).symm) ▸ hfirst
  have hcount : frames.length = (climb 0 (info.available.flatMap (usableIn info))).length := by
    rw [← hframes, length_map]
  refine ⟨frames, hsame, ?_, ?_, ?_⟩
  · refine List.Nodup.of_map UInt64.toNat ?_
    rw [hframes]
    exact hnodup.sublist hsub
  · intro frame hframe
    have hmem := mem_map_of_mem (f := UInt64.toNat) hframe
    rw [hframes] at hmem
    exact mem_usable.mp (hsub.subset hmem)
  · have haligned (page : Nat) (hpage : page ∈ info.available.flatMap (usableIn info)) :
        page % 4096 = 0 := (mem_usable.mp hpage).aligned
    rw [← sorted_iff_inOrder, ← (climb_eq_self_iff haligned 0).trans
      (and_iff_right fun page _ => Nat.zero_le page)]
    constructor
    · rintro ⟨hevery, _⟩
      -- What is kept is all of it, so nothing was passed over.
      refine hsub.eq_of_length_le (hnodup.subperm fun page hpage => ?_).length_le
      rcases hevery page (mem_usable.mp hpage) with ⟨frame, hframe, rfl⟩
      rw [← hframes]
      exact mem_map_of_mem hframe
    · intro hself
      rw [hself] at hframes hcount
      refine ⟨fun page hpage => ?_, ?_⟩
      · have hmem := mem_usable.mpr hpage
        rw [← hframes] at hmem
        exact mem_map.mp hmem
      · change _ = s'.usablePages.toNat
        rw [hrecords.number]
        omega

/-- Two regions of a page each, the higher one first. -/
def descending : BootInfo :=
  { memory := [⟨0x300000, 0x1000⟩, ⟨0x100000, 0x1000⟩], memoryLen := 2, reserved := [],
    reservedLen := 0 }

/-- The lower region is never handed out, and counted as usable. -/
theorem frames_incomplete : (∀ region ∈ descending.available, region.Proper) ∧ Apart descending ∧
    ((init 2 descending State.initial).map fun r =>
      (r.1.skippedRanges, r.1.usablePages, drain 2 r.2)) = some (0, 2, some [0x300000]) ∧
    Usable descending 0x100000 := by
  refine ⟨by decide, ?_, by decide +kernel, ?_⟩
  · refine List.Pairwise.cons ?_ (pairwise_singleton _ _)
    intro b hb
    rw [mem_singleton.mp hb]
    right
    decide
  · refine ⟨by decide, by decide, ⟨⟨0x100000, 0x1000⟩, by decide, by decide, by decide⟩, nofun⟩

/-- Two regions in order, with a reserved one between them. -/
def ascending : BootInfo :=
  { memory := [⟨0, 0x102000⟩, ⟨0x102000, 0x2000⟩], memoryLen := 2,
    reserved := [⟨0x101800, 0x1000⟩], reservedLen := 1 }

theorem frames_complete_iff_ascending :
    ∃ s', (∀ fuel, 2 ^ 64 ≤ fuel →
        init fuel ascending State.initial = some (summary ascending s', s')) ∧
      ((summary ascending s').skippedRanges = 0 →
        ∃ frames, (∀ fuel, 2 ^ 64 ≤ fuel → drain fuel s' = some frames) ∧
          frames.Nodup ∧ (∀ frame ∈ frames, Usable ascending frame.toNat) ∧
          (((∀ page, Usable ascending page → ∃ frame ∈ frames, frame.toNat = page) ∧
            frames.length = (summary ascending s').usablePages.toNat) ↔ InOrder ascending)) :=
  frames_complete_iff ascending State.initial (by decide) (by decide) (by
    refine List.Pairwise.cons ?_ (pairwise_singleton _ _)
    intro b hb
    rw [mem_singleton.mp hb]
    left
    decide)

end Memory

end Norx
