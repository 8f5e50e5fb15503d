import Norx.Memory.Carve

/-!
# Carving the Memory Map

The ranges that `init` records are, page by page and in the order of the memory
map, the usable pages of its regions.

The loop over an available region keeps a cursor that is always at a page
boundary inside the region. A turn looks at every reserved region. If one of
them covers the cursor, the cursor moves past it, and that region touches every
page gone past. If none does, no reserved region touches the stretch up to where
the next one starts, and the whole pages of that stretch become a range; if there
is none, the next reserved region starts inside the page at the cursor. Either
way the cursor moves up by at least a page, so the loop ends, after at most as
many turns as there are bytes.

## Theorems

* `scan_spec`: What the two values are that a turn looks for.
* `carve_turn`, `addAvailable_total`, `init_total`: The loops end, and the pages
  recorded are the usable ones.
-/

namespace Norx

namespace Memory

open Word List

/-! ### The reserved regions from the cursor -/

/-- What is known of the two values a turn looks for, after some of the reserved
    regions: where each of them comes from, and where those regions are. -/
structure Scanned (cursor end_ : UInt64) (seen : List MemoryRegion) (next covered : UInt64) :
    Prop where
  above : cursor.toNat < next.toNat
  inside : covered.toNat ≤ end_.toNat
  nextFrom : next.toNat = end_.toNat ∨ ∃ reserved ∈ seen, next.toNat = reserved.base.toNat ∧
    cursor.toNat < reserved.base.toNat + reserved.length.toNat
  coveredFrom : covered.toNat ≤ cursor.toNat ∨ ∃ reserved ∈ seen,
    reserved.base.toNat ≤ cursor.toNat ∧
      covered.toNat ≤ reserved.base.toNat + reserved.length.toNat
  all : ∀ reserved ∈ seen, reserved.base.toNat + reserved.length.toNat ≤ cursor.toNat ∨
    min next.toNat end_.toNat ≤ reserved.base.toNat ∨ cursor.toNat < covered.toNat

section Scan

variable {cursor end_ next covered : UInt64} {seen : List MemoryRegion} {reserved : MemoryRegion}

/-- Values that the next reserved region has moved, or left. -/
theorem Scanned.moved (h : Scanned cursor end_ seen next covered)
    {next' covered' : UInt64} (habove : cursor.toNat < next'.toNat)
    (hinside : covered'.toNat ≤ end_.toNat)
    (hdown : next'.toNat = next.toNat ∨ next'.toNat < next.toNat ∧
      next'.toNat = reserved.base.toNat ∧
      cursor.toNat < reserved.base.toNat + reserved.length.toNat)
    (hup : covered'.toNat = covered.toNat ∨ covered.toNat < covered'.toNat ∧
      reserved.base.toNat ≤ cursor.toNat ∧
      covered'.toNat ≤ reserved.base.toNat + reserved.length.toNat)
    (hthis : reserved.base.toNat + reserved.length.toNat ≤ cursor.toNat ∨
      min next'.toNat end_.toNat ≤ reserved.base.toNat ∨ cursor.toNat < covered'.toNat) :
    Scanned cursor end_ (seen ++ [reserved]) next' covered' := by
  have hlast : reserved ∈ seen ++ [reserved] := mem_append_right _ mem_cons_self
  refine ⟨habove, hinside, ?_, ?_, fun r hr => ?_⟩
  · rcases hdown with hsame | ⟨-, hnew⟩
    · rw [hsame]
      exact h.nextFrom.imp_right fun ⟨r, hr, hfrom⟩ => ⟨r, mem_append_left _ hr, hfrom⟩
    · exact .inr ⟨reserved, hlast, hnew⟩
  · rcases hup with hsame | ⟨-, hnew⟩
    · rw [hsame]
      exact h.coveredFrom.imp_right fun ⟨r, hr, hfrom⟩ => ⟨r, mem_append_left _ hr, hfrom⟩
    · exact .inr ⟨reserved, hlast, hnew⟩
  · rcases mem_append.mp hr with hr | hr
    · have hold := h.all r hr
      omega
    · rw [mem_singleton.mp hr]
      exact hthis

theorem scanReserved_spec (hcursor : cursor.toNat < end_.toNat)
    (h : Scanned cursor end_ seen next covered)
    (hfits : reserved.base.toNat + reserved.length.toNat < 2 ^ 64) :
    Scanned cursor end_ (seen ++ [reserved])
      (scanReserved cursor end_ (next, covered) reserved).1
      (scanReserved cursor end_ (next, covered) reserved).2 := by
  have habove := h.above
  have hinside := h.inside
  unfold scanReserved
  cases hend : Word.checkedAdd reserved.base reserved.length with
  | none =>
    rw [checkedAdd_eq_none] at hend
    omega
  | some reservedEnd =>
    rw [checkedAdd_eq_some] at hend
    simp only [UInt64.le_iff_toNat_le]
    split_ifs with hoff hcovers
    · exact h.moved habove hinside (.inl rfl) (.inl rfl) (by omega)
    · have hmax := toNat_max covered (min reservedEnd end_)
      rw [toNat_min] at hmax
      dsimp only
      exact h.moved habove (by omega) (.inl rfl) (by omega) (by omega)
    · have hmin := toNat_min next reserved.base
      dsimp only
      exact h.moved (by omega) hinside (by omega) (.inl rfl) (by omega)

/-- What a turn learns from all of them. -/
theorem scan_spec (hcursor : cursor.toNat < end_.toNat) {reservations : List MemoryRegion}
    (hfits : ∀ reserved ∈ reservations, reserved.base.toNat + reserved.length.toNat < 2 ^ 64) :
    Scanned cursor end_ reservations (scan cursor end_ reservations).1
      (scan cursor end_ reservations).2 := by
  unfold scan
  induction reservations using List.reverseRecOn with
  | nil => exact ⟨hcursor, Nat.le_of_lt hcursor, .inl rfl, .inl (le_refl _), nofun⟩
  | append_singleton seen reserved ih =>
    rw [foldl_concat]
    exact scanReserved_spec hcursor (ih fun r hr => hfits r (mem_append_left _ hr))
      (hfits reserved (mem_append_right _ mem_cons_self))

end Scan

/-! ### The clear pages gone past -/

variable {info : BootInfo}

/-- The pages a turn goes past, and the clear ones among them. -/
def clearBetween (info : BootInfo) (cursor next : Nat) : List Nat :=
  (pagesFrom cursor ((next - cursor) / 4096)).filter fun page => decide (Clear info page)

theorem clearBetween_append {a b c : Nat} (ha : a % 4096 = 0) (hb : b % 4096 = 0)
    (hc : c % 4096 = 0) (hab : a ≤ b) (hbc : b ≤ c) :
    clearBetween info a c = clearBetween info a b ++ clearBetween info b c := by
  rw [clearBetween, clearBetween, clearBetween, ← filter_append]
  have hcount : (c - a) / 4096 = (b - a) / 4096 + (c - b) / 4096 := by omega
  rw [hcount, pagesFrom_append, show a + (b - a) / 4096 * 4096 = b by omega]

/-- No page before the next position is clear. -/
theorem clearBetween_eq_nil {cursor next : Nat} (ha : cursor % 4096 = 0)
    (h : ∀ page, page % 4096 = 0 → cursor ≤ page → page < next / 4096 * 4096 →
      ¬ Clear info page) : clearBetween info cursor next = [] := by
  rw [clearBetween, filter_eq_nil_iff]
  intro page hpage
  rw [mem_pagesFrom ha] at hpage
  rw [decide_eq_true_iff]
  exact h page hpage.1 hpage.2.1 (by omega)

section Cursor

variable {cursor end_ next covered : UInt64} (haligned : cursor.toNat % 4096 = 0)
  (hscan : Scanned cursor end_ info.reservations next covered)

include haligned hscan

/-- If a reserved region covers the cursor, it touches every page the turn goes
    past. -/
theorem clear_covered (hcovers : cursor.toNat < covered.toNat)
    (hcovered : covered.toNat ≤ 2 ^ 64 - 4096) :
    clearBetween info cursor.toNat (alignUp covered).toNat = [] := by
  refine clearBetween_eq_nil haligned fun page hpage hlow hhigh hclear => ?_
  rw [alignUp_toNat covered hcovered] at hhigh
  rcases hscan.coveredFrom with hnone | ⟨reserved, hmem, hbase, hup⟩
  · omega
  · have htouch := hclear reserved hmem
    omega

/-- If there is no whole page up to the next reserved region, that region starts
    inside the page at the cursor. -/
theorem clear_blocked (hgo : cursor.toNat < end_.toNat) (halign : end_.toNat % 4096 = 0)
    (hblocked : min next.toNat end_.toNat < cursor.toNat + 4096) :
    clearBetween info cursor.toNat (cursor.toNat + 4096) = [] := by
  refine clearBetween_eq_nil haligned fun page hpage hlow hhigh hclear => ?_
  rcases hscan.nextFrom with hsame | ⟨reserved, hmem, hbase, hup⟩
  · omega
  · have htouch := hclear reserved hmem
    omega

/-- The pages from the cursor to the next reserved region are clear, if the cursor
    is not covered. -/
theorem clear_stretch (hfree : ¬ cursor.toNat < covered.toNat) {stop : Nat}
    (hstop : stop ≤ min next.toNat end_.toNat / 4096 * 4096) :
    clearBetween info cursor.toNat stop = pagesFrom cursor.toNat ((stop - cursor.toNat) / 4096) := by
  rw [clearBetween, filter_eq_self]
  intro page hpage
  rw [mem_pagesFrom haligned] at hpage
  refine decide_eq_true fun reserved hmem => ?_
  have hwhere := hscan.all reserved hmem
  omega

end Cursor

/-! ### The loop over a region -/

section Region

variable {region : MemoryRegion} {end_ : UInt64} {known : List Nat}

/-- Where the cursor is, and that the clear pages before it have been recorded. -/
structure CarveInv (info : BootInfo) (region : MemoryRegion) (end_ : UInt64) (known : List Nat)
    (at_ : UInt64 × State) : Prop where
  aligned : at_.1.toNat % 4096 = 0
  past : firstPage region ≤ at_.1.toNat
  upper : at_.1.toNat ≤ end_.toNat
  logged : Logged info at_.2 (known ++ clearBetween info (firstPage region) at_.1.toNat)

/-- The end of a region, rounded down to a page. -/
structure RegionEnd (region : MemoryRegion) (end_ : UInt64) : Prop where
  aligned : end_.toNat % 4096 = 0
  inside : end_.toNat ≤ region.base.toNat + region.length.toNat

variable (hreserved : ∀ reserved ∈ info.reservations,
    reserved.base.toNat + reserved.length.toNat < 2 ^ 64)
  (hregion : region ∈ info.available) (hend : RegionEnd region end_)

include hregion hend in
/-- The clear pages of a stretch of the region are usable. -/
theorem stretch_usable {cursor stop : UInt64} (haligned : cursor.toNat % 4096 = 0)
    (hpast : firstPage region ≤ cursor.toNat) (hstop : stop.toNat ≤ end_.toNat)
    (hle : cursor.toNat ≤ stop.toNat)
    (hclear : clearBetween info cursor.toNat stop.toNat
      = pagesFrom cursor.toNat ((stop.toNat - cursor.toNat) / 4096)) :
    ((stop - cursor) / pageSize).toNat = (stop.toNat - cursor.toNat) / 4096 ∧
      RangeOk info { start := cursor, pages := (stop - cursor) / pageSize } := by
  have hpages : ((stop - cursor) / pageSize).toNat = (stop.toNat - cursor.toNat) / 4096 := by
    rw [UInt64.toNat_div, UInt64.toNat_sub_of_le _ _ (UInt64.le_iff_toNat_le.mpr hle)]
    rfl
  have hend' := end_.toNat_lt
  have halign := hend.aligned
  have hinside := hend.inside
  have hlow := (firstPage_spec region).2.1
  refine ⟨hpages, haligned, ?_, fun k hk => ?_⟩
  · change cursor.toNat + ((stop - cursor) / pageSize).toNat * 4096 ≤ _
    omega
  · change k < ((stop - cursor) / pageSize).toNat at hk
    have hmem : cursor.toNat + k * 4096 ∈ pagesFrom cursor.toNat
        ((stop.toNat - cursor.toNat) / 4096) :=
      mem_map.mpr ⟨k, mem_range.mpr (hpages ▸ hk), rfl⟩
    rw [← hclear, clearBetween, mem_filter, decide_eq_true_iff] at hmem
    refine usable_iff.mpr ⟨region, hregion, ?_, ?_, ?_, ?_, hmem.2⟩
    · change (cursor.toNat + k * 4096) % 4096 = 0
      omega
    · change 0x100000 ≤ cursor.toNat + k * 4096
      omega
    · change region.base.toNat ≤ cursor.toNat + k * 4096
      omega
    · change cursor.toNat + k * 4096 + 4096 ≤ _
      omega

include hreserved hregion hend

/-- A turn records the clear pages it goes past, and moves on. -/
theorem carve_turn {at_ : UInt64 × State} (h : CarveInv info region end_ known at_)
    (hgo : at_.1.toNat < end_.toNat) :
    CarveInv info region end_ known (carve info.reservations end_ at_) ∧
      at_.1.toNat < (carve info.reservations end_ at_).1.toNat := by
  have hend' := end_.toNat_lt
  have halign := hend.aligned
  have haligned := h.aligned
  -- Wherever the cursor moves to, up to the end of the region, the invariant has it there.
  have hmoved (cursor : UInt64) (s : State) (hup : at_.1.toNat < cursor.toNat)
      (hupper : cursor.toNat ≤ end_.toNat) (hcursor : cursor.toNat % 4096 = 0)
      (hlogged : Logged info s (known ++ clearBetween info (firstPage region) at_.1.toNat ++
        clearBetween info at_.1.toNat cursor.toNat)) :
      CarveInv info region end_ known (cursor, s) ∧ at_.1.toNat < (cursor, s).1.toNat := by
    refine ⟨⟨hcursor, h.past.trans (Nat.le_of_lt hup), hupper, ?_⟩, hup⟩
    rwa [append_assoc, ← clearBetween_append (firstPage_spec region).1 haligned hcursor h.past
      (Nat.le_of_lt hup)] at hlogged
  rcases hscan : scan at_.1 end_ info.reservations with ⟨next, covered⟩
  have hspec : Scanned at_.1 end_ info.reservations next covered := by
    have hall := scan_spec hgo hreserved
    rwa [hscan] at hall
  have hcovered := hspec.inside
  unfold carve
  simp only [hscan, UInt64.lt_iff_toNat_lt]
  by_cases hcovers : at_.1.toNat < covered.toNat
  · rw [if_pos hcovers]
    have hcursor := alignUp_toNat covered (by omega)
    refine hmoved (alignUp covered) at_.2 (by omega) (by omega) (by omega) ?_
    rw [clear_covered haligned hspec hcovers (by omega), append_nil]
    exact h.logged
  · rw [if_neg hcovers]
    have hstop : (alignDown (min next end_)).toNat = min next.toNat end_.toNat / 4096 * 4096 := by
      rw [alignDown_toNat, toNat_min]
    generalize alignDown (min next end_) = stop at hstop ⊢
    have hmax : (max stop (Word.saturatingAdd at_.1 pageSize)).toNat
        = max stop.toNat (at_.1.toNat + 4096) := by
      rw [toNat_max, saturatingAdd_toNat, show pageSize.toNat = 4096 from rfl,
        Nat.min_eq_left (by omega)]
    have hcursor := alignUp_toNat (max stop (Word.saturatingAdd at_.1 pageSize)) (by omega)
    refine hmoved _ _ (by omega) (by omega) (by omega) ?_
    by_cases hsome : at_.1.toNat < stop.toNat
    · have hnext : (alignUp (max stop (Word.saturatingAdd at_.1 pageSize))).toNat = stop.toNat := by
        omega
      rw [if_pos hsome, hnext]
      have hclear := clear_stretch haligned hspec hcovers (Nat.le_of_eq hstop)
      rcases stretch_usable hregion hend haligned h.past (by omega) (Nat.le_of_lt hsome) hclear
        with ⟨hpages, hok⟩
      rw [hclear, ← hpages]
      refine pushRange_logged h.logged hok fun hzero => ?_
      rw [hzero] at hpages
      change 0 = _ at hpages
      omega
    · have hnext : (alignUp (max stop (Word.saturatingAdd at_.1 pageSize))).toNat
          = at_.1.toNat + 4096 := by omega
      rw [if_neg hsome, hnext, clear_blocked haligned hspec hgo halign (by omega), append_nil]
      exact h.logged

/-- The loop over an available region ends, and records the clear pages from where
    it starts. -/
theorem carve_total {s : State} (hs : Logged info s known) {cursor : UInt64}
    (hcursor : cursor.toNat = firstPage region) (hupper : cursor.toNat ≤ end_.toNat) :
    ∃ at_, Logged info at_.2 (known ++ clearBetween info (firstPage region) end_.toNat) ∧
      ∀ fuel, 2 ^ 64 ≤ fuel → whileLoop (fun at_ => decide (at_.1 < end_))
        (carve info.reservations end_) fuel (cursor, s) = some at_ := by
  have hend' := end_.toNat_lt
  have hturn (at_ : UInt64 × State) (hat : CarveInv info region end_ known at_)
      (hgo : decide (at_.1 < end_) = true) :
      CarveInv info region end_ known (carve info.reservations end_ at_) ∧
        end_.toNat - (carve info.reservations end_ at_).1.toNat < end_.toNat - at_.1.toNat := by
    have hgo' := UInt64.lt_iff_toNat_lt.mp (of_decide_eq_true hgo)
    rcases carve_turn hreserved hregion hend hat hgo' with ⟨hnext, hmove⟩
    exact ⟨hnext, by omega⟩
  have hstart : CarveInv info region end_ known (cursor, s) := by
    refine ⟨hcursor ▸ (firstPage_spec region).1, Nat.le_of_eq hcursor.symm, hupper, ?_⟩
    rw [hcursor, clearBetween, Nat.sub_self]
    exact (append_nil known).symm ▸ hs
  rcases whileLoop_total (fun at_ : UInt64 × State => decide (at_.1 < end_))
    (carve info.reservations end_) (CarveInv info region end_ known)
    (fun at_ => end_.toNat - at_.1.toNat) hturn (2 ^ 64) (cursor, s) hstart (by omega)
    with ⟨at_, hinv, hstop, hfuel⟩
  rw [decide_eq_false_iff_not, UInt64.lt_iff_toNat_lt, Nat.not_lt] at hstop
  refine ⟨at_, ?_, hfuel⟩
  rw [Nat.le_antisymm hstop hinv.upper]
  exact hinv.logged

omit hend in
/-- A region as a whole. -/
theorem addAvailable_total {s : State} (hs : Logged info s known) :
    ∃ s', Logged info s' (known ++ usableIn info region) ∧
      ∀ fuel, 2 ^ 64 ≤ fuel → addAvailable fuel info s region = some s' := by
  unfold addAvailable
  cases hsum : Word.checkedAdd region.base region.length with
  | none => exact ⟨_, logged_skipped hs.carved, fun _ _ => rfl⟩
  | some end_ =>
    rw [checkedAdd_eq_some] at hsum
    have hdown := alignDown_toNat end_
    have hlt := end_.toNat_lt
    have hstart : (max region.base minFrame).toNat = max region.base.toNat 0x100000 := by
      rw [toNat_max]
      rfl
    have hlow := (firstPage_spec region).2.1
    have hpages : usableIn info region
        = clearBetween info (firstPage region) (alignDown end_).toNat := by
      rw [usableIn, pageCount, clearBetween, hdown, hsum]
    -- A region without a whole page above the first megabyte has no usable one.
    have hnone (hshort : (alignDown end_).toNat ≤ firstPage region) :
        Logged info s (known ++ usableIn info region) := by
      rw [hpages, clearBetween, Nat.sub_eq_zero_of_le hshort]
      exact (append_nil known).symm ▸ hs
    simp only [UInt64.le_iff_toNat_le]
    by_cases hempty : end_.toNat ≤ (max region.base minFrame).toNat
    · simp only [if_pos hempty]
      exact ⟨s, hnone (by omega), fun _ _ => rfl⟩
    · simp only [if_neg hempty]
      -- The cursor is at the first page, unless that is beyond the address space.
      have hcursor : (alignUp (max region.base minFrame)).toNat = firstPage region ∨
          (alignDown end_).toNat ≤ firstPage region ∧
            (alignDown end_).toNat ≤ (alignUp (max region.base minFrame)).toNat := by
        by_cases htop : (max region.base minFrame).toNat ≤ 2 ^ 64 - 4096
        · exact .inl (by rw [alignUp_toNat _ htop, hstart, firstPage])
        · rcases le_alignUp_toNat (max region.base minFrame) with hle | hlast
          · exact .inr ⟨by omega, by omega⟩
          · exact .inr ⟨by omega, by omega⟩
      by_cases hshort : (alignDown end_).toNat ≤ (alignUp (max region.base minFrame)).toNat
      · simp only [if_pos hshort]
        exact ⟨s, hnone (by omega), fun _ _ => rfl⟩
      · simp only [if_neg hshort]
        have hend : RegionEnd region (alignDown end_) := ⟨by omega, by omega⟩
        have hfirst : (alignUp (max region.base minFrame)).toNat = firstPage region := by omega
        rcases carve_total hreserved hregion hend hs hfirst (by omega)
          with ⟨at_, hlogged, hfuel⟩
        refine ⟨at_.2, hpages ▸ hlogged, fun fuel hle => ?_⟩
        rw [hfuel fuel hle]
        rfl

end Region

/-- Reading the memory map ends, with the usable pages recorded and nothing handed
    out. -/
theorem init_total
    (hreserved : ∀ reserved ∈ info.reservations, reserved.base.toNat + reserved.length.toNat < 2 ^
      64) (s : State) :
    ∃ s', Logged info s' (info.available.flatMap (usableIn info)) ∧ ∀ fuel, 2 ^ 64 ≤ fuel →
      init fuel info s = some (summary info s', s') := by
  have hfold : ∀ regions : List MemoryRegion, (∀ region ∈ regions, region ∈ info.available) →
      ∀ known s, Logged info s known →
        ∃ s', Logged info s' (known ++ regions.flatMap (usableIn info)) ∧
          ∀ fuel, 2 ^ 64 ≤ fuel → regions.foldlM (addAvailable fuel info) s = some s' := by
    intro regions
    induction regions with
    | nil =>
      intro _ known s hs
      exact ⟨s, (append_nil known).symm ▸ hs, fun _ _ => rfl⟩
    | cons region rest ih =>
      intro hmem known s hs
      rcases addAvailable_total hreserved (hmem region mem_cons_self) hs
        with ⟨middle, hmiddle, hfirst⟩
      rcases ih (fun r hr => hmem r (mem_cons_of_mem _ hr)) _ middle hmiddle
        with ⟨s', hs', hrest⟩
      rw [append_assoc, ← flatMap_cons] at hs'
      refine ⟨s', hs', fun fuel hle => ?_⟩
      rw [foldlM_cons, hfirst fuel hle]
      exact hrest fuel hle
  have hreset : Logged info (reset s) [] :=
    ⟨⟨⟨Nat.zero_le _, nofun⟩, rfl, rfl, rfl⟩, fun _ => ⟨rfl, rfl, nofun⟩⟩
  rcases hfold info.available (fun _ hr => hr) [] (reset s) hreset with ⟨s', hs', hfuel⟩
  refine ⟨s', hs', fun fuel hle => ?_⟩
  rw [init, hfuel fuel hle]
  rfl

end Memory

end Norx
