import Norx.Memory.Handout

/-!
# Taking and Giving Frames

The frame allocator as its callers see it, for use in the proofs about them. A
frame taken was with nobody and is with its caller now; a frame its caller
gives back is on the returned list afterwards, unless the list is full. The
list gets one shorter with every frame taken and one longer with every frame
given back.

A reserved region that ends past the address space is passed over by `init`, so
the allocator after `init` is as if the memory map did not have it. That makes
the results about the allocator results about every memory map.

## Theorems

* `take_some`, `take_none`, `give_cases`: The two calls.
* `Accounts.taken`, `Accounts.given`, `Accounts.shift`: A frame taken, given back and
  recorded.
* `init_carved`: `init` ends on every memory map.
-/

namespace Norx

namespace Memory

open List

/-- `alloc_frame`, with the frames in callers' hands. -/
def Held.take (h : Held) : Option UInt64 × Held := ((allocFrame h.state).1, step h .alloc)

/-- `free_frame`, with the frames in callers' hands. -/
def Held.give (frame : UInt64) (h : Held) : Bool × Held :=
  ((freeFrame frame h.state).1, step h (.free frame))

/-- The frames on the returned list. -/
def Held.returned (h : Held) : List UInt64 :=
  h.state.returnedFrames.leading h.state.returnedCount

/-- A frame has been handed out. -/
structure Taken (info : BootInfo) (h : Held) (frame : UInt64) (h' : Held) : Prop where
  safe : Safe info h'
  live : h'.live = frame :: h.live
  usable : Usable info frame.toNat
  new : frame ∉ h.live
  count : h'.state.returnedCount = h.state.returnedCount - 1

/-- There was none to hand out. -/
structure Exhausted (info : BootInfo) (h h' : Held) : Prop where
  safe : Safe info h'
  live : h'.live = h.live
  count : h'.state.returnedCount = h.state.returnedCount

/-- A frame has been taken back. -/
structure Given (info : BootInfo) (h : Held) (frame : UInt64) (h' : Held) : Prop where
  safe : Safe info h'
  live : h'.live = h.live.erase frame
  returned : h'.returned = h.returned ++ [frame]
  room : h.state.returnedCount < maxReturnedFrames
  count : h'.state.returnedCount = h.state.returnedCount + 1

variable {info : BootInfo} {h : Held}

theorem allocFrame_count (hsafe : Safe info h) :
    (allocFrame h.state).2.returnedCount = h.state.returnedCount - 1 := by
  unfold allocFrame
  by_cases hreturned : h.state.returnedCount ≠ 0
  · rw [if_pos hreturned]
  · rw [if_neg hreturned]
    have hkept := (allocRange_spec (h.state.rangeCount - h.state.nextRange) h.state hsafe.sound
      hsafe.aligned).kept
    rw [hkept.returnedCount]
    omega

theorem step_alloc (h : Held) : step h .alloc =
    { state := (allocFrame h.state).2, live := (allocFrame h.state).1.toList ++ h.live } := by
  unfold step
  rcases allocFrame h.state with ⟨_ | frame, s⟩
  · rfl
  · rfl

theorem take_some (hsafe : Safe info h) {frame : UInt64} (hframe : h.take.1 = some frame) :
    Taken info h frame h.take.2 := by
  have halloc : (allocFrame h.state).1 = some frame := hframe
  rcases safe_alloc hsafe with ⟨hnext, hfound⟩
  rcases hfound frame halloc with ⟨husable, hnew⟩
  refine ⟨hnext, ?_, husable, hnew, ?_⟩
  · change (step h .alloc).live = frame :: h.live
    rw [step_alloc, halloc]
    rfl
  · change (step h .alloc).state.returnedCount = _
    rw [step_alloc]
    exact allocFrame_count hsafe

theorem take_none (hsafe : Safe info h) (hnone : h.take.1 = none) : Exhausted info h h.take.2 := by
  have halloc : (allocFrame h.state).1 = none := hnone
  have hempty : h.state.returnedCount = 0 := by
    by_contra hreturned
    rw [allocFrame, if_pos hreturned] at halloc
    cases halloc
  refine ⟨(safe_alloc hsafe).1, ?_, ?_⟩
  · change (step h .alloc).live = h.live
    rw [step_alloc, halloc]
    rfl
  · change (step h .alloc).state.returnedCount = _
    rw [step_alloc]
    have hcount := allocFrame_count hsafe
    change (allocFrame h.state).2.returnedCount = _
    omega

/-- A frame is taken back exactly when the list has room for it. -/
theorem give_cases (hsafe : Safe info h) {frame : UInt64} (hlive : frame ∈ h.live) :
    ((h.give frame).1 = true ∧ Given info h frame (h.give frame).2) ∨
      (h.give frame = (false, h) ∧ h.state.returnedCount = maxReturnedFrames) := by
  have hpool : frame ∈ pool h := mem_append_right _ hlive
  have husable := (hsafe.usable frame hpool).1
  have hgood : ¬ (frame < minFrame ∨ frame % pageSize ≠ 0) := by
    have hlow := husable.low
    have haligned := husable.aligned
    rintro (hlt | hmod)
    · exact absurd hlt (Nat.not_lt.mpr hlow)
    · refine hmod (UInt64.toNat_inj.mp ?_)
      exact haligned
  have hnew : frame ∉ h.state.returnedFrames.leading h.state.returnedCount := fun hmem =>
    (nodup_append.mp hsafe.nodup).2.2 frame hmem frame hlive rfl
  by_cases hfull : h.state.returnedCount = maxReturnedFrames
  · right
    have hfree : freeFrame frame h.state = (false, h.state) := by
      rw [freeFrame, if_neg hgood, if_pos (.inl hfull)]
    refine ⟨?_, hfull⟩
    simp only [Held.give, step, hfree]
  · left
    have hroom : h.state.returnedCount < maxReturnedFrames :=
      Nat.lt_of_le_of_ne hsafe.count hfull
    have hfree : freeFrame frame h.state = (true, { h.state with
        returnedFrames := h.state.returnedFrames.set h.state.returnedCount frame
        returnedCount := h.state.returnedCount + 1 }) := by
      rw [freeFrame, if_neg hgood, if_neg (not_or.mpr ⟨hfull, hnew⟩)]
    have hnext := safe_free hsafe hlive
    simp only [step, hfree] at hnext
    simp only [Held.give, step, hfree]
    refine ⟨trivial, hnext, rfl, ?_, hroom, rfl⟩
    change (h.state.returnedFrames.set h.state.returnedCount frame).leading
      (h.state.returnedCount + 1) = _
    rw [Slots.leading_succ _ hroom, Slots.get_set_self _ _ hroom, Slots.leading_set _ _ (le_refl _)]
    rfl

/-! ### Where the frames are -/

/-- The frames handed out are those that are recorded somewhere and those lost,
    each once. A frame in the hands of running code is lost until it is
    recorded. -/
structure Accounts (info : BootInfo) (recorded lost : List UInt64) (h : Held) : Prop where
  safe : Safe info h
  perm : (lost ++ recorded).Perm h.live

namespace Accounts

variable {info : BootInfo} {recorded lost : List UInt64} {h h' : Held} {frame : UInt64}

theorem taken (ha : Accounts info recorded lost h) (htaken : Taken info h frame h') :
    Accounts info recorded (frame :: lost) h' := by
  refine ⟨htaken.safe, ?_⟩
  rw [htaken.live]
  exact ha.perm.cons frame

theorem exhausted (ha : Accounts info recorded lost h) (hexhausted : Exhausted info h h') :
    Accounts info recorded lost h' := by
  refine ⟨hexhausted.safe, ?_⟩
  rw [hexhausted.live]
  exact ha.perm

theorem mem_live (ha : Accounts info recorded (frame :: lost) h) : frame ∈ h.live :=
  ha.perm.subset mem_cons_self

theorem given (ha : Accounts info recorded (frame :: lost) h) (hgiven : Given info h frame h') :
    Accounts info recorded lost h' := by
  refine ⟨hgiven.safe, ?_⟩
  have herase := ha.perm.erase frame
  rw [hgiven.live]
  rwa [cons_append, erase_cons_head] at herase

/-- Frames move between being recorded and being in someone's hands. -/
theorem shift {recorded' lost' : List UInt64} (ha : Accounts info recorded lost h)
    (hperm : (lost' ++ recorded').Perm (lost ++ recorded)) : Accounts info recorded' lost' h :=
  ⟨ha.safe, hperm.trans ha.perm⟩

variable {recorded' : List UInt64}

/-- A frame in hand is recorded. -/
theorem record (ha : Accounts info recorded (frame :: lost) h)
    (hperm : recorded'.Perm (frame :: recorded)) : Accounts info recorded' lost h :=
  ha.shift ((hperm.append_left lost).trans perm_middle)

/-- A frame is taken out of the records. -/
theorem strike (ha : Accounts info recorded lost h) (hperm : recorded.Perm (frame :: recorded')) :
    Accounts info recorded' (frame :: lost) h :=
  ha.shift (((hperm.append_left lost).trans perm_middle).symm)

/-- No frame is on the returned list and with anyone, or recorded twice. -/
theorem nodup (ha : Accounts info recorded lost h) : (h.returned ++ recorded).Nodup := by
  have hpool : (h.returned ++ (lost ++ recorded)).Nodup :=
    (ha.perm.append_left h.returned).nodup_iff.mpr ha.safe.nodup
  refine hpool.sublist (List.Sublist.append_left ?_ h.returned)
  exact sublist_append_right lost recorded

end Accounts

/-! ### Every memory map -/

namespace BootInfo

/-- The memory map without the reserved regions that end past the address
    space. -/
def effective (info : BootInfo) : BootInfo :=
  { info with
    reserved := info.reservations.filter fun reserved =>
      reserved.base.toNat + reserved.length.toNat < 2 ^ 64
    reservedLen := info.reservations.length }

theorem effective_reservations (info : BootInfo) :
    info.effective.reservations = info.reservations.filter fun reserved =>
      reserved.base.toNat + reserved.length.toNat < 2 ^ 64 :=
  take_of_length_le (length_filter_le _ _)

end BootInfo

theorem scan_effective (cursor end_ : UInt64) (info : BootInfo) :
    scan cursor end_ info.effective.reservations = scan cursor end_ info.reservations := by
  rw [info.effective_reservations, scan, foldl_filter]
  refine congrArg (fun f => List.foldl f (end_, cursor) info.reservations) ?_
  funext found reserved
  by_cases hfits : reserved.base.toNat + reserved.length.toNat < 2 ^ 64
  · rw [if_pos (decide_eq_true hfits)]
  · rw [if_neg (by rw [decide_eq_false hfits]; exact Bool.false_ne_true)]
    have hnone : Word.checkedAdd reserved.base reserved.length = none := by
      rw [Word.checkedAdd, if_neg hfits]
    simp only [scanReserved, hnone]

theorem init_effective (fuel : Nat) (info : BootInfo) (s : State) :
    init fuel info.effective s = init fuel info s := by
  have hcarve (end_ : UInt64) : carve info.effective.reservations end_ =
      carve info.reservations end_ := by
    funext at_
    simp only [carve, scan_effective]
  have hadd : addAvailable fuel info.effective = addAvailable fuel info := by
    funext s region
    simp only [addAvailable, hcarve]
  unfold init
  rw [hadd]
  rfl

/-- `init` ends on every memory map, with an allocator that has handed out
    nothing yet. -/
theorem init_carved (info : BootInfo) (s : State) :
    ∃ s', Carved info.effective s' ∧
      ∀ fuel, 2 ^ 64 ≤ fuel → init fuel info s = some (summary info s', s') := by
  have hfits : ∀ reserved ∈ info.effective.reservations,
      reserved.base.toNat + reserved.length.toNat < 2 ^ 64 := by
    intro reserved hmem
    rw [info.effective_reservations] at hmem
    exact of_decide_eq_true (mem_filter.mp hmem).2
  rcases init_total hfits s with ⟨s', hlogged, hinit⟩
  refine ⟨s', hlogged.carved, fun fuel hfuel => ?_⟩
  rw [← init_effective]
  exact hinit fuel hfuel

end Memory

end Norx
