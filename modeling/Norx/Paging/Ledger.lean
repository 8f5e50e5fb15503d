import Norx.Paging.Aarch64
import Norx.Paging.X86

/-!
# Frames in the Paging Code

Where the frames that are handed out are, while a walk allocates tables: in the
list of table frames, with the rest of the kernel, or nowhere. A frame that has
just been taken counts as nowhere until it is recorded, so a frame lost is one
that is still nowhere when the walk returns.

On x86_64 the walk loses the frame it has just taken when the list of table
frames is full. On aarch64 it looks for the place first.

## Theorems

* `userSpaceMap_ledger`, `userSpaceUnmap_frames`: The walks.
-/

namespace Norx

namespace Paging

open Fallible Space Memory

/-- The frames handed out are those lost, those of the rest of the kernel and
    the table frames, each once. -/
abbrev Ledger (info : BootInfo) (rest lost : List UInt64) (s : State) : Prop :=
  Accounts info (rest ++ s.tables.entries) lost s.frames

/-- How far a walk over `levels` levels can move the two lists: a table for each
    level, and no frame on the returned list but the last one taken. -/
structure Within (levels : Nat) (s s' : State) : Prop where
  tables : s'.tables.entries.length ≤ s.tables.entries.length + levels
  count : s'.frames.state.returnedCount ≤ max s.frames.state.returnedCount 1

/-- What is left after a walk over `levels` levels that failed. It can have lost
    a frame only by finding the list of table frames full. -/
def Spilled (info : BootInfo) (rest lost : List UInt64) (leaky : Prop) (levels : Nat)
    (s s' : State) : Prop :=
  ∃ extra, Ledger info rest (extra ++ lost) s' ∧ Within levels s s' ∧
    (extra ≠ [] → leaky ∧ s'.tables.entries.length = maxTableFrames ∧
      maxTableFrames < s.tables.entries.length + levels)

variable {frame : UInt64}

section Rules

variable {info : BootInfo} {s : State} {Q : UInt64 → State → Prop} {E : Unit → State → Prop}

theorem wp_allocFrame (hsafe : Safe info s.frames)
    (hsome : ∀ frame h, Taken info s.frames frame h → Q frame (s.setFrames h))
    (hnone : ∀ h, Exhausted info s.frames h → E () (s.setFrames h)) :
    wp allocFrame Q E s := by
  unfold allocFrame
  rw [wp_bind, wp_within]
  simp
  exact ⟨fun frame hframe => hsome frame _ (take_some hsafe hframe),
    fun hframe => hnone _ (take_none hsafe hframe)⟩

theorem wp_freeFrame {Q : Bool → State → Prop} (hsafe : Safe info s.frames)
    (hlive : frame ∈ s.frames.live)
    (htrue : ∀ h, Given info s.frames frame h → Q true (s.setFrames h))
    (hfalse : s.frames.state.returnedCount = maxReturnedFrames → Q false s) :
    wp (freeFrame frame) Q E s := by
  unfold freeFrame
  rw [wp_within, wp_act]
  rcases give_cases hsafe hlive with ⟨hresult, hgiven⟩ | ⟨hgive, hfull⟩
  · rw [hresult]
    exact htrue _ hgiven
  · rw [hgive]
    exact hfalse hfull

end Rules

variable {s : State} {slot : Nat}

theorem length_setTable (hslot : s.tables.position Option.isNone = some slot) :
    (s.setTable slot frame).tables.entries.length = s.tables.entries.length + 1 := by
  rcases Slots.position_eq_some.mp hslot with ⟨hlt, hnone, _⟩
  exact (Slots.entries_fill hlt (Option.isNone_iff_eq_none.mp hnone) frame).length_eq

variable {rest lost : List UInt64} {info : BootInfo}

/-- A frame in hand becomes a table. -/
theorem Ledger.setTable (h : Ledger info rest (frame :: lost) s)
    (hslot : s.tables.position Option.isNone = some slot) :
    Ledger info rest lost (s.setTable slot frame) := by
  rcases Slots.position_eq_some.mp hslot with ⟨hlt, hnone, _⟩
  have hfill := Slots.entries_fill hlt (Option.isNone_iff_eq_none.mp hnone) frame
  exact h.record ((hfill.append_left rest).trans List.perm_middle)

/-! ### The two processors -/

/-- What the walks need of a processor's side of them: only a new level takes
    frames. -/
structure Orderly (w : Walker) (leaky : Prop) : Prop where
  enter : ∀ root s, wp (w.enter root) (fun _ s' => s' = s) (fun _ s' => s' = s) s
  follow : ∀ table index s, wp (w.follow table index) (fun _ s' => s' = s) (fun _ s' => s' = s) s
  arrive : ∀ table s, wp (w.arrive table) (fun _ s' => s' = s) (fun _ s' => s' = s) s
  extend : ∀ {info rest lost} table index s, Ledger info rest lost s →
    wp (w.extend table index)
      (fun _ s' => Ledger info rest lost s' ∧ Within 1 s s')
      (fun _ s' => Spilled info rest lost leaky 1 s s') s

variable {levels : Nat} {s' : State} {s : State}

section

variable {info : BootInfo} {rest lost : List UInt64} {s : State}

theorem spilled {leaky : Prop} (h : Ledger info rest lost s') (hwithin : Within levels s s') :
    Spilled info rest lost leaky levels s s' :=
  ⟨[], h, hwithin, fun hne => absurd rfl hne⟩

theorem Within.refl (levels : Nat) (s : State) : Within levels s s :=
  ⟨Nat.le_add_right _ _, Nat.le_max_left _ _⟩

theorem Within.trans {more : Nat} {s s₁ : State} (h : Within levels s s₁) (h' : Within more s₁ s') :
    Within (levels + more) s s' := by
  have htables := h.tables
  have htables' := h'.tables
  have hcount := h.count
  have hcount' := h'.count
  exact ⟨by omega, by omega⟩

theorem Within.setHardware (h : Within levels s s') (hardware : Hardware) :
    Within levels s (s'.setHardware hardware) := ⟨h.tables, h.count⟩

variable {frames : Held}

theorem Within.exhausted (levels : Nat) (h : Exhausted info s.frames frames) :
    Within levels s (s.setFrames frames) :=
  ⟨Nat.le_add_right _ _, (Nat.le_of_eq h.count).trans (Nat.le_max_left _ _)⟩

variable {hardware : Hardware}

/-- A frame taken and made a table. -/
theorem Within.table (htaken : Taken info s.frames frame frames)
    (hslot : s.tables.position Option.isNone = some slot) :
    Within 1 s (((s.setFrames frames).setHardware hardware).setTable slot frame) := by
  refine ⟨(length_setTable (s := (s.setFrames frames).setHardware hardware) hslot).le, ?_⟩
  have hcount := htaken.count
  change frames.state.returnedCount ≤ max s.frames.state.returnedCount 1
  omega

/-- A frame just taken is given back: the list has the room the frame left. -/
theorem wp_bounce {leaky : Prop} (h : Ledger info rest lost s)
    (htaken : Taken info s.frames frame frames) {E : Unit → State → Prop} :
    wp (freeFrame frame) (fun _ s' => Spilled info rest lost leaky 1 s s') E
      ((s.setFrames frames).setHardware hardware) := by
  have hheld := h.taken htaken
  refine wp_freeFrame hheld.safe hheld.mem_live (fun h' hgiven => ?_) fun hfull => ?_
  · refine spilled (hheld.given hgiven) ⟨Nat.le_succ _, ?_⟩
    have hcount := htaken.count
    have hback := hgiven.count
    change h'.state.returnedCount ≤ max s.frames.state.returnedCount 1
    change h'.state.returnedCount = frames.state.returnedCount + 1 at hback
    omega
  · have hcount := htaken.count
    have hmost := h.safe.count
    change frames.state.returnedCount = maxReturnedFrames at hfull
    have hroom : 0 < maxReturnedFrames := by decide
    omega

end

namespace X86

theorem allocateUserTable_ledger (h : Ledger info rest lost s) :
    wp allocateUserTable
      (fun _ s' => Ledger info rest lost s' ∧ Within 1 s s')
      (fun _ s' => Spilled info rest lost True 1 s s') s := by
  unfold allocateUserTable
  rw [wp_bind]
  refine wp_allocFrame h.safe (fun frame frames htaken => ?_) fun frames hexhausted => ?_
  · have hheld := h.taken htaken
    simp only [wp_bind, wp_ite]
    refine ⟨fun _ => wp_bounce h htaken, fun _ => ?_⟩
    simp
    refine ⟨fun slot hslot => ⟨Ledger.setTable hheld hslot, .table htaken hslot⟩,
      fun hfull => ?_⟩
    have hlen := Slots.entries_full hfull
    have hcount := htaken.count
    refine ⟨[frame], hheld, ⟨Nat.le_succ _, ?_⟩,
      fun _ => ⟨trivial, hlen, Nat.lt_succ_of_le (Nat.le_of_eq hlen.symm)⟩⟩
    change frames.state.returnedCount ≤ max s.frames.state.returnedCount 1
    omega
  · exact spilled (h.exhausted hexhausted) (.exhausted 1 hexhausted)

theorem orderly : Orderly walker True where
  enter root s := by
    change wp (lookup _ _) _ _ _
    rw [wp_lookup]
    exact ⟨fun _ _ => rfl, fun _ => rfl⟩
  follow table index s := by
    change wp (follow table index) _ _ _
    unfold follow
    simp
  arrive table s := rfl
  extend table index s h := by
    change wp (extend table index) _ _ _
    unfold extend
    rw [wp_bind, wp_read, wp_ite]
    constructor
    · intro _
      rw [wp_bind]
      refine wp_post (allocateUserTable_ledger h) (fun frame s' hs' => ?_)
      simp [writeEntry]
      exact ⟨fun _ _ => ⟨hs'.1, hs'.2.setHardware _⟩,
        fun _ => spilled hs'.1 (hs'.2.setHardware _)⟩
    · intro _
      simp only [wp_bind, wp_ite, wp_fail, wp_lookup]
      exact ⟨fun _ => spilled h (.refl 1 s), fun _ =>
        ⟨fun _ _ => ⟨h, .refl 1 s⟩, fun _ => spilled h (.refl 1 s)⟩⟩

end X86

namespace Aarch64

theorem allocateTable_ledger (h : Ledger info rest lost s) :
    wp allocateTable
      (fun _ s' => Ledger info rest lost s' ∧ Within 1 s s')
      (fun _ s' => Spilled info rest lost False 1 s s') s := by
  unfold allocateTable
  rw [wp_bind, wp_lookup]
  refine ⟨fun slot hslot => ?_, fun _ => spilled h (.refl 1 s)⟩
  rw [wp_bind]
  refine wp_allocFrame h.safe (fun frame frames htaken => ?_) fun frames hexhausted => ?_
  · simp
    refine ⟨fun _ => wp_bounce h htaken, fun _ => ?_⟩
    exact ⟨Ledger.setTable (s := (s.setFrames frames).setHardware _) (h.taken htaken) hslot,
      .table htaken hslot⟩
  · exact spilled (h.exhausted hexhausted) (.exhausted 1 hexhausted)

theorem orderly : Orderly walker False where
  enter root s := rfl
  follow table index s := by
    change wp (follow table index) _ _ _
    unfold follow
    simp only [wp_bind, wp_read, wp_ite, wp_fail, wp_pure, wp_lookup, implies_true, and_self]
  arrive table s := by
    change wp (lookup _ _) _ _ _
    rw [wp_lookup]
    exact ⟨fun _ _ => rfl, fun _ => rfl⟩
  extend table index s h := by
    change wp (extend table index) _ _ _
    unfold extend
    simp only [wp_bind, wp_lookup, wp_read, wp_ite, wp_fail, wp_pure]
    refine ⟨fun pointer _ => ⟨fun _ => ⟨fun _ => spilled h (.refl 1 s), fun _ =>
      ⟨fun _ => spilled h (.refl 1 s), fun _ => ⟨h, .refl 1 s⟩⟩⟩, fun _ => ?_⟩,
      fun _ => spilled h (.refl 1 s)⟩
    refine wp_post (allocateTable_ledger h) (fun frame s' hs' => ?_)
    simp only [writeEntry, wp_modify]
    exact ⟨hs'.1, hs'.2.setHardware _⟩

end Aarch64

/-! ### The walks -/

section Walks

variable {info : BootInfo} {rest lost : List UInt64} {w : Walker} {leaky : Prop}

theorem Spilled.more {more : Nat} {s₁ : State} (h : Spilled info rest lost leaky more s₁ s')
    (hwithin : Within levels s s₁) : Spilled info rest lost leaky (levels + more) s s' := by
  rcases h with ⟨extra, hledger, hmore, hleak⟩
  refine ⟨extra, hledger, hwithin.trans hmore, fun hne => ?_⟩
  rcases hleak hne with ⟨hl, hfull, hmost⟩
  have htables := hwithin.tables
  exact ⟨hl, hfull, by omega⟩

/-- Going down some levels. -/
theorem extend_levels (hw : Orderly w leaky) : ∀ (path : List Nat) (table : UInt64) (s : State),
    Ledger info rest lost s →
    wp (path.foldlM w.extend table)
      (fun _ s' => Ledger info rest lost s' ∧ Within path.length s s')
      (fun _ s' => Spilled info rest lost leaky path.length s s') s := by
  intro path
  induction path with
  | nil =>
    intro table s h
    exact ⟨h, .refl _ s⟩
  | cons index path ih =>
    intro table s h
    rw [List.foldlM_cons, wp_bind, List.length_cons, Nat.add_comm path.length 1]
    refine wp_mono (hw.extend table index s h) (fun next s₁ h₁ => ?_) fun _ s' hs' => ?_
    · exact wp_mono (ih next s₁ h₁.1) (fun _ s' hs' => ⟨hs'.1, h₁.2.trans hs'.2⟩)
        fun _ s' hs' => hs'.more h₁.2
    · rcases hs' with ⟨extra, hledger, hwithin, hleak⟩
      refine ⟨extra, hledger, hwithin.trans (.refl _ s'), fun hne => ?_⟩
      rcases hleak hne with ⟨hl, hfull, hmost⟩
      exact ⟨hl, hfull, by omega⟩

/-- Entering a mapping takes frames for tables only. -/
theorem userSpaceMap_ledger (hw : Orderly w leaky) (h : Ledger info rest lost s) (root : UInt64)
    (mapping : MappingInfo) :
    wp (w.userSpaceMap root mapping)
      (fun _ s' => Ledger info rest lost s' ∧ Within 3 s s')
      (fun _ s' => Spilled info rest lost leaky 3 s s') s := by
  unfold Walker.userSpaceMap
  simp
  refine ⟨fun _ => spilled h (.refl 3 _), fun _ => ?_⟩
  refine wp_mono (hw.enter root s) (fun table s' hs' => ?_) fun _ s' hs' => ?_
  · subst hs'
    refine wp_post (extend_levels hw (indices mapping.virtualAddress) table s' h)
      (fun table s₁ h₁ => ?_)
    refine wp_mono (hw.arrive table s₁) (fun table s' hs' => ?_) fun _ s' hs' => ?_
    · subst hs'
      exact ⟨fun _ => spilled h₁.1 h₁.2, fun _ => ⟨h₁.1, h₁.2.setHardware _⟩⟩
    · subst hs'
      exact spilled h₁.1 h₁.2
  · subst hs'
    exact spilled h (.refl 3 _)

/-- What a walk that takes no frames can change: an entry of a table. -/
def SameFrames (s s' : State) : Prop := s'.frames = s.frames ∧ s'.tables = s.tables

theorem follow_levels (hw : Orderly w leaky) : ∀ (path : List Nat) (table : UInt64) (s : State),
    wp (path.foldlM w.follow table) (fun _ s' => s' = s) (fun _ s' => s' = s) s := by
  intro path table s
  refine wp_foldlM (fun _ _ s' => s' = s) (fun index _ table s' hs' => ?_) path table s rfl
  subst hs'
  exact hw.follow table index s'

/-- Taking a mapping out takes no frames. -/
theorem userSpaceUnmap_frames (hw : Orderly w leaky) (s : State) (root : UInt64)
    (virtualAddress : Nat) :
    wp (w.userSpaceUnmap root virtualAddress) (fun _ s' => SameFrames s s')
      (fun _ s' => SameFrames s s') s := by
  unfold Walker.userSpaceUnmap
  simp
  refine ⟨fun _ => ⟨rfl, rfl⟩, fun _ => ?_⟩
  refine wp_mono (hw.enter root s) (fun table s' hs' => ?_) fun _ s' hs' => ?_
  · subst hs'
    refine wp_mono (follow_levels hw (indices virtualAddress) table s')
      (fun table s₁ h₁ => ?_) fun _ s₁ h₁ => ?_
    · subst h₁
      refine wp_mono (hw.arrive table s₁) (fun table s₂ h₂ => ?_) fun _ s₂ h₂ => ?_
      · subst h₂
        exact ⟨fun _ => ⟨rfl, rfl⟩, fun _ => ⟨rfl, rfl⟩⟩
      · subst h₂
        exact ⟨rfl, rfl⟩
    · subst h₁
      exact ⟨rfl, rfl⟩
  · subst hs'
    exact ⟨rfl, rfl⟩

end Walks

end Paging

end Norx
