import Norx.Lib.Run
import Norx.Memory.Exact

/-!
# Handing Out Frames

Frames go back and forth between the allocator and its callers. The frames that
are with a caller and those on the returned list are one pool: returning a
frame and handing it out again moves it inside the pool, and a frame enters the
pool when the position in the ranges passes it. That position only moves up, so
no frame enters twice.

`Safe` says this of a state: the pool has no duplicates, and everything in it is
usable and below the position. It does not matter in which order the ranges
are, or whether they overlap.

## Theorems

* `safe_alloc`, `safe_free`, `safe_run`: Every permitted call keeps the
  invariant.
* `frames_safe`: `init` ends, and every frame handed out later is usable and not
  handed out already.
-/

namespace Norx

namespace Memory

open List

/-- The allocator, and the frames it has handed out. -/
structure Held where
  state : State
  live : List UInt64

/-- A call to the allocator. -/
inductive FrameCall where
  | alloc
  | free (frame : UInt64)

/-- A frame is handed out from when it is returned by `alloc_frame` until it is
    taken back by `free_frame`. -/
def step (h : Held) : FrameCall → Held
  | .alloc =>
    match allocFrame h.state with
    | (some frame, s) => { state := s, live := frame :: h.live }
    | (none, s) => { state := s, live := h.live }
  | .free frame =>
    match freeFrame frame h.state with
    | (true, s) => { state := s, live := h.live.erase frame }
    | (false, s) => { state := s, live := h.live }

/-- Only a frame that is handed out is given back. -/
def Permitted (h : Held) : FrameCall → Prop
  | .alloc => True
  | .free frame => frame ∈ h.live

/-- The frames that have been handed out at some time: those on the returned
    list and those with a caller. -/
def pool (h : Held) : List UInt64 :=
  h.state.returnedFrames.leading h.state.returnedCount ++ h.live

/-- Each frame is at one place only, and behind the position in the ranges. -/
structure Safe (info : BootInfo) (h : Held) : Prop where
  sound : Sound info h.state
  count : h.state.returnedCount ≤ maxReturnedFrames
  aligned : h.state.nextFrame.toNat % 4096 = 0
  nodup : (pool h).Nodup
  usable : ∀ frame ∈ pool h,
    Usable info frame.toNat ∧ frame.toNat < h.state.nextFrame.toNat

/-! ### The next frame of the ranges -/

/-- What the search for a frame leaves alone. -/
structure Kept (s s' : State) : Prop where
  ranges : s'.ranges = s.ranges
  rangeCount : s'.rangeCount = s.rangeCount
  returnedFrames : s'.returnedFrames = s.returnedFrames
  returnedCount : s'.returnedCount = s.returnedCount

/-- The position moves up, past the frame that is handed out if there is one. -/
structure Advanced (info : BootInfo) (s : State) (found : Option UInt64) (s' : State) : Prop where
  kept : Kept s s'
  aligned : s'.nextFrame.toNat % 4096 = 0
  up : s.nextFrame.toNat ≤ s'.nextFrame.toNat
  passed : ∀ frame, found = some frame → Usable info frame.toNat ∧
    s.nextFrame.toNat ≤ frame.toNat ∧ frame.toNat < s'.nextFrame.toNat

variable {s : State}

theorem Kept.trans {s' s'' : State} (h : Kept s s') (h' : Kept s' s'') : Kept s s'' where
  ranges := h'.ranges.trans h.ranges
  rangeCount := h'.rangeCount.trans h.rangeCount
  returnedFrames := h'.returnedFrames.trans h.returnedFrames
  returnedCount := h'.returnedCount.trans h.returnedCount

variable {info : BootInfo}

theorem sound_kept {s' : State} (h : Sound info s) (hkept : Kept s s') : Sound info s' := by
  refine ⟨?_, fun i hi => ?_⟩
  · rw [hkept.rangeCount]
    exact h.count
  · rw [hkept.ranges]
    rw [hkept.rangeCount] at hi
    exact h.ranges i hi

theorem Advanced.of_kept {s' s'' : State} {found : Option UInt64} (hkept : Kept s s')
    (hup : s.nextFrame.toNat ≤ s'.nextFrame.toNat) (h : Advanced info s' found s'') :
    Advanced info s found s'' where
  kept := hkept.trans h.kept
  aligned := h.aligned
  up := hup.trans h.up
  passed := by
    intro frame hframe
    rcases h.passed frame hframe with ⟨husable, hlow, hpassed⟩
    exact ⟨husable, hup.trans hlow, hpassed⟩

/-- Entering a range moves the position to its start, if it is not there yet. -/
theorem enterRange_spec (range : Range) (s : State) :
    Kept s (enterRange range s) ∧
      (enterRange range s).nextFrame.toNat = max s.nextFrame.toNat range.start.toNat := by
  unfold enterRange
  by_cases hbefore : s.nextFrame = 0 ∨ s.nextFrame < range.start
  · rw [if_pos hbefore]
    refine ⟨⟨rfl, rfl, rfl, rfl⟩, ?_⟩
    rcases hbefore with hzero | hlt
    · rw [hzero]
      exact (Nat.max_eq_right (Nat.zero_le _)).symm
    · exact (Nat.max_eq_right (Nat.le_of_lt hlt)).symm
  · rw [if_neg hbefore]
    have hle : range.start.toNat ≤ s.nextFrame.toNat := by
      by_contra hlt
      exact hbefore (.inr (UInt64.lt_iff_toNat_lt.mpr (Nat.not_le.mp hlt)))
    exact ⟨⟨rfl, rfl, rfl, rfl⟩, (Nat.max_eq_left hle).symm⟩

/-- The frame at a position inside a range is one of its pages. -/
theorem passFrame_spec {range : Range} (hrange : RangeOk info range)
    (haligned : s.nextFrame.toNat % 4096 = 0) (hstart : range.start.toNat ≤ s.nextFrame.toNat)
    (hroom : s.nextFrame.toNat < range.end_.toNat) :
    Advanced info s (some s.nextFrame) (passFrame s) := by
  have hfits := hrange.fits
  have hend := end_toNat hrange
  have hnext : (passFrame s).nextFrame.toNat = s.nextFrame.toNat + 4096 := by
    rw [passFrame, UInt64.toNat_add, show pageSize.toNat = 4096 from rfl]
    omega
  have hafter : (passFrame s).nextFrame.toNat % 4096 = 0 := by omega
  have hup : s.nextFrame.toNat < (passFrame s).nextFrame.toNat := by omega
  have hkept : Kept s (passFrame s) := by
    unfold passFrame
    exact ⟨rfl, rfl, rfl, rfl⟩
  refine ⟨hkept, hafter, Nat.le_of_lt hup, fun frame hframe => ?_⟩
  injection hframe with hframe
  subst hframe
  exact ⟨usable_of_mem hrange haligned hstart hroom, le_refl _, hup⟩

theorem allocRange_spec : ∀ (turns : Nat) (s : State), Sound info s →
    s.nextFrame.toNat % 4096 = 0 →
      Advanced info s (allocRange turns s).1 (allocRange turns s).2 := by
  intro turns
  induction turns with
  | zero =>
    intro s _ haligned
    exact ⟨⟨rfl, rfl, rfl, rfl⟩, haligned, le_refl _, nofun⟩
  | succ turns ih =>
    intro s hsound haligned
    rw [allocRange]
    by_cases hleft : s.nextRange < s.rangeCount
    · have hrange := hsound.ranges s.nextRange hleft
      have hstart := hrange.aligned
      rcases enterRange_spec (s.ranges.get s.nextRange) s with ⟨hkept, hposition⟩
      simp only [if_pos hleft]
      generalize enterRange (s.ranges.get s.nextRange) s = s₁ at hkept hposition ⊢
      have haligned₁ : s₁.nextFrame.toNat % 4096 = 0 := by omega
      refine Advanced.of_kept hkept (by omega) ?_
      by_cases hroom : s₁.nextFrame < (s.ranges.get s.nextRange).end_
      · rw [if_pos hroom]
        exact passFrame_spec hrange haligned₁ (by omega) (UInt64.lt_iff_toNat_lt.mp hroom)
      · rw [if_neg hroom]
        have hkept₁ : Kept s₁ { s₁ with nextRange := s₁.nextRange + 1 } := ⟨rfl, rfl, rfl, rfl⟩
        exact Advanced.of_kept hkept₁ (le_refl _)
          (ih _ (sound_kept (sound_kept hsound hkept) hkept₁) haligned₁)
    · rw [if_neg hleft]
      exact ⟨⟨rfl, rfl, rfl, rfl⟩, haligned, le_refl _, nofun⟩

/-! ### The pool -/

variable {h : Held}

/-- A frame handed out was in no caller's hands, and the invariant is kept. -/
theorem safe_alloc (hsafe : Safe info h) :
    Safe info (step h .alloc) ∧ ∀ frame, (allocFrame h.state).1 = some frame →
      Usable info frame.toNat ∧ frame ∉ h.live := by
  by_cases hreturned : h.state.returnedCount ≠ 0
  · -- The last returned frame: the pool as a list stays the same.
    obtain ⟨k, hk⟩ := Nat.exists_eq_succ_of_ne_zero hreturned
    have hcount := hsafe.count
    have halloc : allocFrame h.state = (some (h.state.returnedFrames.get k),
        { h.state with returnedCount := k }) := by
      rw [allocFrame, hk]
      rfl
    have hpool : pool h = h.state.returnedFrames.leading k ++
        h.state.returnedFrames.get k :: h.live := by
      rw [pool, hk, Slots.leading_succ _ (by omega), append_assoc]
      rfl
    have hmem : h.state.returnedFrames.get k ∈ pool h := by
      rw [hpool]
      exact mem_append_right _ mem_cons_self
    have hstep : step h .alloc = ⟨{ h.state with returnedCount := k },
        h.state.returnedFrames.get k :: h.live⟩ := by
      simp only [step, halloc]
    rw [hstep, halloc]
    refine ⟨⟨⟨hsafe.sound.count, hsafe.sound.ranges⟩, ?_, hsafe.aligned, ?_, ?_⟩, ?_⟩
    · change k ≤ maxReturnedFrames
      omega
    · have hnodup := hsafe.nodup
      rwa [hpool] at hnodup
    · have husable := hsafe.usable
      rwa [hpool] at husable
    · intro frame hframe
      injection hframe with hframe
      subst hframe
      refine ⟨(hsafe.usable _ hmem).1, fun hlive => ?_⟩
      have hnodup := hsafe.nodup
      rw [hpool] at hnodup
      exact (nodup_cons.mp (nodup_append.mp hnodup).2.1).1 hlive
  · have halloc : allocFrame h.state = allocRange (h.state.rangeCount - h.state.nextRange) h.state := by
      rw [allocFrame, if_neg hreturned]
    have hspec := allocRange_spec (h.state.rangeCount - h.state.nextRange) h.state hsafe.sound
      hsafe.aligned
    rw [← halloc] at hspec
    rcases hrun : allocFrame h.state with ⟨result, s⟩
    rw [hrun] at hspec
    have hkept : Kept h.state s := hspec.kept
    have hleading : s.returnedFrames.leading s.returnedCount
        = h.state.returnedFrames.leading h.state.returnedCount := by
      rw [hkept.returnedFrames, hkept.returnedCount]
    have hcount : s.returnedCount ≤ maxReturnedFrames := by
      rw [hkept.returnedCount]
      exact hsafe.count
    have hup : h.state.nextFrame.toNat ≤ s.nextFrame.toNat := hspec.up
    have hbelow (frame : UInt64) (hframe : frame ∈ pool h) :
        Usable info frame.toNat ∧ frame.toNat < s.nextFrame.toNat :=
      ⟨(hsafe.usable frame hframe).1, Nat.lt_of_lt_of_le (hsafe.usable frame hframe).2 hup⟩
    cases result with
    | none =>
      have hstep : step h .alloc = { state := s, live := h.live } := by
        simp only [step, hrun]
      have hpool : pool { state := s, live := h.live } = pool h := by
        rw [pool, hleading]
        rfl
      rw [hstep]
      refine ⟨⟨sound_kept hsafe.sound hkept, hcount, hspec.aligned, ?_, ?_⟩, nofun⟩
      · rw [hpool]
        exact hsafe.nodup
      · rw [hpool]
        exact hbelow
    | some frame =>
      have hstep : step h .alloc = { state := s, live := frame :: h.live } := by
        simp only [step, hrun]
      rcases hspec.passed frame rfl with ⟨husable, hlow, hpassed⟩
      -- The frame is not below the old position, where all of the pool is.
      have hnew : frame ∉ pool h := by
        intro hframe
        exact absurd (hsafe.usable frame hframe).2 (Nat.not_lt.mpr hlow)
      have hperm : (pool { state := s, live := frame :: h.live }).Perm (frame :: pool h) := by
        rw [pool, hleading]
        exact perm_middle
      rw [hstep]
      refine ⟨⟨sound_kept hsafe.sound hkept, hcount, hspec.aligned, ?_, ?_⟩, ?_⟩
      · exact hperm.nodup_iff.mpr (nodup_cons.mpr ⟨hnew, hsafe.nodup⟩)
      · intro other hother
        rcases mem_cons.mp (hperm.mem_iff.mp hother) with rfl | hother
        · exact ⟨husable, hpassed⟩
        · exact hbelow other hother
      · intro other hother
        injection hother with hother
        subst hother
        exact ⟨husable, fun hlive => hnew (mem_append_right _ hlive)⟩

/-- A frame taken back moves from its caller to the returned list. -/
theorem safe_free (hsafe : Safe info h) {frame : UInt64} (hlive : frame ∈ h.live) :
    Safe info (step h (.free frame)) := by
  rcases hrun : freeFrame frame h.state with ⟨taken, s⟩
  have hrun' := hrun
  unfold freeFrame at hrun'
  by_cases hbad : frame < minFrame ∨ frame % pageSize ≠ 0
  · rw [if_pos hbad] at hrun'
    obtain ⟨rfl, rfl⟩ := Prod.mk.inj hrun'
    simp only [step, hrun]
    exact hsafe
  · rw [if_neg hbad] at hrun'
    by_cases hfull : h.state.returnedCount = maxReturnedFrames ∨
        frame ∈ h.state.returnedFrames.leading h.state.returnedCount
    · rw [if_pos hfull] at hrun'
      obtain ⟨rfl, rfl⟩ := Prod.mk.inj hrun'
      simp only [step, hrun]
      exact hsafe
    · rw [if_neg hfull] at hrun'
      obtain ⟨rfl, rfl⟩ := Prod.mk.inj hrun'
      have hroom : h.state.returnedCount < maxReturnedFrames :=
        Nat.lt_of_le_of_ne hsafe.count fun heq => hfull (.inl heq)
      simp only [step, hrun]
      have hperm : (h.state.returnedFrames.leading h.state.returnedCount ++ [frame] ++
          h.live.erase frame).Perm (pool h) := by
        rw [append_assoc]
        exact (perm_cons_erase hlive).symm.append_left _
      have hpool : (((h.state.returnedFrames.set h.state.returnedCount frame).leading
          (h.state.returnedCount + 1)) ++ h.live.erase frame).Perm (pool h) := by
        rw [Slots.leading_succ _ hroom, Slots.leading_set _ _ (le_refl _),
          Slots.get_set_self _ _ hroom]
        exact hperm
      refine ⟨⟨hsafe.sound.count, hsafe.sound.ranges⟩, hroom, hsafe.aligned, ?_, ?_⟩
      · exact hpool.nodup_iff.mpr hsafe.nodup
      · intro other hother
        exact hsafe.usable other (hpool.mem_iff.mp hother)

theorem safe_step (hsafe : Safe info h) {call : FrameCall} (hok : Permitted h call) :
    Safe info (step h call) := by
  cases call with
  | alloc => exact (safe_alloc hsafe).1
  | free frame => exact safe_free hsafe hok

theorem safe_carved (h : Carved info s) : Safe info { state := s, live := [] } := by
  have hpool : pool { state := s, live := [] } = [] := by
    rw [pool, h.returned]
    rfl
  refine ⟨h.sound, ?_, ?_, ?_, ?_⟩
  · rw [h.returned]
    exact Nat.zero_le _
  · rw [h.nextFrame]
    rfl
  · rw [hpool]
    exact nodup_nil
  · rw [hpool]
    nofun

theorem safe_run (h : Carved info s) {calls : List FrameCall}
    (hok : Obeys step Permitted { state := s, live := [] } calls) :
    Safe info (run step { state := s, live := [] } calls) :=
  run_invariant step Permitted (Safe info) (fun _ _ hsafe hcall => safe_step hsafe hcall) calls _ (safe_carved h) hok

/-- `init` ends on every memory map, and every frame handed out after it, by any
    calls that give back only what is handed out, is usable and not handed out
    already. -/
theorem frames_safe (info : BootInfo) (s : State)
    (hreserved : ∀ reserved ∈ info.reservations,
      reserved.base.toNat + reserved.length.toNat < 2 ^ 64) :
    ∃ s', (∀ fuel, 2 ^ 64 ≤ fuel → init fuel info s = some (summary info s', s')) ∧
      ∀ calls, Obeys step Permitted { state := s', live := [] } calls →
        ∀ frame, (allocFrame (run step { state := s', live := [] } calls).state).1 = some frame →
          Usable info frame.toNat ∧ frame ∉ (run step { state := s', live := [] } calls).live := by
  rcases init_total hreserved s with ⟨s', hlogged, hfuel⟩
  refine ⟨s', hfuel, fun calls hok frame hframe => ?_⟩
  exact (safe_alloc (safe_run hlogged.carved hok)).2 frame hframe

/-- A map with two overlapping regions and a reserved one that ends inside a
    page. -/
def overlapping : BootInfo :=
  { memory := [⟨0x300000, 0x200000⟩, ⟨0, 0x400000⟩], memoryLen := 2,
    reserved := [⟨0x300000, 0x1800⟩], reservedLen := 1 }

theorem frames_safe_overlapping :
    ∃ s', (∀ fuel, 2 ^ 64 ≤ fuel →
        init fuel overlapping State.initial = some (summary overlapping s', s')) ∧
      ∀ calls, Obeys step Permitted { state := s', live := [] } calls →
        ∀ frame, (allocFrame (run step { state := s', live := [] } calls).state).1 = some frame →
          Usable overlapping frame.toNat ∧
            frame ∉ (run step { state := s', live := [] } calls).live :=
  frames_safe overlapping State.initial (by decide)

/-- The first frame handed out is the first whole page behind the reserved
    region. -/
example : ((init 5 overlapping State.initial).map fun r => (allocFrame r.2).1)
    = some (some 0x302000) := by decide +kernel

end Memory

end Norx
