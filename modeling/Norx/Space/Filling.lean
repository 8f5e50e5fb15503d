import Norx.Space.View

/-!
# Spaces That Are Not in Use Yet

Until a space is activated its operations do not touch the page tables, so they
can be followed exactly: which frame is taken, what is zeroed, and that a failure
has done nothing. While a new space is being filled, the frames it has taken have
left room on the returned list, so destroying it gives all of them back.

## Theorems

* `mapPage_filling`, `removeMapping_filling`, `mapStack_filling`: The operations.
* `destroy_filling`: Destroying it gives back all its frames.
-/

namespace Norx

namespace Space

open Fallible Memory

/-- A space that is being filled. Every frame it has taken came off the returned
    list while there were any, so there is room for all of them. -/
structure Filling (info : BootInfo) (target : Machine) (others lost : List UInt64) (e : Env) :
    Prop where
  ledger : Ledger info others lost e
  live : e.space.rootFrame ≠ none
  inactive : e.space.active = false
  tables : e.space.tableFrames.entries = []
  room : e.frames.state.returnedCount + e.space.mappings.entries.length + 1 ≤ maxReturnedFrames
  pages : PagesOk target e.space

/-- A page has been mapped in a space that is not active. -/
structure Added (info : BootInfo) (target : Machine) (virtualAddress : Nat) (flags : PageFlags)
    (kind : MappingKind) (e : Env) (mapping : MappingInfo) (e' : Env) : Prop where
  mapped : Mapped target virtualAddress flags kind e.space mapping e'.space
  taken : Taken info e.frames mapping.physicalFrame e'.frames
  hardware : e'.hardware = (zeroFrame target mapping.physicalFrame e.hardware).2
  tables : e'.space.tableFrames = e.space.tableFrames
  active : e'.space.active = e.space.active

variable {info : BootInfo} {target : Machine} {others lost : List UInt64} {e : Env}

/-- A page is mapped on the frame the allocator hands out, or nothing has happened
    but that the allocator was asked. -/
theorem mapPage_off (hoff : e.space.active = false) (virtualAddress : Nat) (flags : PageFlags)
    (kind : MappingKind) :
    wp (mapPage target virtualAddress flags kind)
      (fun mapping e' => Mapped target virtualAddress flags kind e.space mapping e'.space ∧
        e.frames.take = (some mapping.physicalFrame, e'.frames) ∧
        e'.hardware = (zeroFrame target mapping.physicalFrame e.hardware).2 ∧
        e'.space.tableFrames = e.space.tableFrames ∧ e'.space.active = e.space.active)
      (fun _ e' => e' = e ∨ (e.frames.take.1 = none ∧ e' = e.setFrames e.frames.take.2)) e := by
  refine wp_mapPage (fun _ => .inl rfl) (fun hnone => .inr ⟨hnone, rfl⟩)
    fun slot mapping root _ _ hframe hmapped => ⟨fun _ => ?_, fun hon => ?_⟩
  · exact ⟨hmapped _ (tablesOnly_refl _), Prod.ext hframe rfl, rfl, rfl, rfl⟩
  · rw [hoff] at hon
    exact nomatch hon

theorem mapPage_inactive (hsafe : Safe info e.frames) (hoff : e.space.active = false)
    (virtualAddress : Nat) (flags : PageFlags) (kind : MappingKind) :
    wp (mapPage target virtualAddress flags kind)
      (fun mapping e' => Added info target virtualAddress flags kind e mapping e')
      (fun _ e' => ∃ held, e' = e.setFrames held ∧ (held = e.frames ∨ Exhausted info e.frames held))
      e := by
  refine wp_mono (mapPage_off hoff virtualAddress flags kind) (fun mapping e' h' => ?_)
    fun _ e' h' => ?_
  · rcases h' with ⟨hmapped, htake, hhardware, htables, hactive⟩
    have htaken := take_some hsafe (congrArg Prod.fst htake)
    rw [congrArg Prod.snd htake] at htaken
    exact ⟨hmapped, htaken, hhardware, htables, hactive⟩
  · rcases h' with rfl | ⟨hnone, rfl⟩
    · exact ⟨_, rfl, .inl rfl⟩
    · exact ⟨_, rfl, .inr (take_none hsafe hnone)⟩

variable {e' : Env} {mapping : MappingInfo} {virtualAddress : Nat} {kind : MappingKind}
  {flags : PageFlags}

section

variable (h : Filling info target others lost e)

include h

theorem Filling.added (hadded : Added info target virtualAddress flags kind e mapping e') :
    Filling info target others lost e' := by
  obtain ⟨root, hroot⟩ := Option.ne_none_iff_exists'.mp h.live
  have hroot' : e'.space.rootFrame = some root := hadded.mapped.root.trans hroot
  have hentries := hadded.mapped.entries
  have howned : e'.space.owned.Perm (mapping.physicalFrame :: e.space.owned) := by
    rw [owned_of_root _ hroot, owned_of_root _ hroot', hadded.tables]
    exact (((hentries.map MappingInfo.physicalFrame).append_right _).cons root).trans
      (List.Perm.swap _ _ _)
  refine ⟨?_, ?_, hadded.active.trans h.inactive, ?_, ?_, hadded.mapped.pagesOk h.pages⟩
  · exact (h.ledger.taken hadded.taken).record
      ((howned.append_left others).trans List.perm_middle)
  · rw [hadded.mapped.root]
    exact h.live
  · rw [hadded.tables]
    exact h.tables
  · have hlen := hentries.length_eq
    have hmost := e'.space.mappings.entries_length_le
    have hcount := hadded.taken.count
    have hroom := h.room
    rw [List.length_cons] at hlen
    change e'.space.mappings.entries.length ≤ 64 at hmost
    have hmax : maxReturnedFrames = 128 := rfl
    omega

theorem Filling.exhausted {held : Held} (hheld : held = e.frames ∨ Exhausted info e.frames held) :
    Filling info target others lost (e.setFrames held) := by
  rcases hheld with rfl | hexhausted
  · exact h
  · refine ⟨h.ledger.exhausted hexhausted, h.live, h.inactive, h.tables, ?_, h.pages⟩
    change held.state.returnedCount + _ + 1 ≤ _
    rw [hexhausted.count]
    exact h.room

theorem mapPage_filling (virtualAddress : Nat) (flags : PageFlags) (kind : MappingKind) :
    wp (mapPage target virtualAddress flags kind)
      (fun mapping e' => Filling info target others lost e' ∧
        Added info target virtualAddress flags kind e mapping e')
      (fun _ e' => Filling info target others lost e') e := by
  refine wp_mono (mapPage_inactive h.ledger.safe h.inactive virtualAddress flags kind)
    (fun mapping e' hadded => ⟨h.added hadded, hadded⟩) fun _ e' he' => ?_
  rcases he' with ⟨held, rfl, hheld⟩
  exact h.exhausted hheld

/-- Nothing of a space in the making changes with memory alone. -/
theorem Filling.hardwareOnly (honly : HardwareOnly e e') : Filling info target others lost e' := by
  rcases honly with ⟨hardware, rfl⟩
  exact ⟨h.ledger, h.live, h.inactive, h.tables, h.room, h.pages⟩

/-- A page that is taken out is given back: the list has the room its frame
    left. -/
theorem removeMapping_filling (virtualAddress : Nat) :
    wp (removeMapping target virtualAddress) (fun _ => Filling info target others lost)
      (fun _ => Filling info target others lost) e := by
  obtain ⟨root, hroot⟩ := Option.ne_none_iff_exists'.mp h.live
  refine wp_removeMapping (fun _ hardware => h.hardwareOnly ⟨hardware, rfl⟩)
    fun slot mapping hardware hslot hget => ?_
  have hheld := Ledger.clear (e := e.setHardware hardware) h.ledger hroot hget
  have hentries := Slots.entries_clear hget
  have hlen := hentries.length_eq
  rw [List.length_cons] at hlen
  have hroom := h.room
  refine wp_freeFrame hheld.safe hheld.mem_live (fun held hgiven => ⟨nofun, fun _ => ?_⟩)
    fun hfull => ?_
  · refine ⟨hheld.given hgiven, h.live, h.inactive, h.tables, ?_, ?_⟩
    · have hcount := hgiven.count
      change held.state.returnedCount = e.frames.state.returnedCount + 1 at hcount
      change held.state.returnedCount + (e.space.mappings.set slot none).entries.length + 1 ≤ _
      omega
    · have hunmapped : Unmapped virtualAddress e.space (e.space.setMapping slot none) :=
        ⟨slot, hslot, rfl⟩
      exact hunmapped.pagesOk h.pages
  · change e.frames.state.returnedCount = maxReturnedFrames at hfull
    omega

theorem Filling.paged : Paged e.space :=
  h.ledger.paged (Gone.of_live h.live) h.pages.distinct

theorem Filling.stored {start : Nat} {bytes : List UInt8} (hstored : Stored start bytes e e') :
    Filling info target others lost e' := by
  rcases e' with ⟨frames, hardware, space⟩
  have hframes := hstored.frames
  have hspace := hstored.space
  subst hframes hspace
  exact h.hardwareOnly ⟨hardware, rfl⟩

end

/-- The frames of the other spaces are accounted for, whatever was lost. -/
def Strayed (info : BootInfo) (others : List UInt64) (e : Env) : Prop :=
  ∃ lost, Accounts info others lost e.frames

/-- Dropping a space loses its frames. -/
theorem Filling.strayed (h : Filling info target others lost e) : Strayed info others e := by
  refine ⟨lost ++ e.space.owned, h.ledger.shift ?_⟩
  rw [List.append_assoc]
  exact List.perm_append_comm.append_left lost

/-! ### What the process sees -/

/-- Some pages have been mapped, zeroed where they can be, and what was there
    before is as it was. -/
structure Grown (target : Machine) (pages : Nat → Prop) (e e' : Env) : Prop where
  old : ∀ address, ¬ pages (pageOf address) →
    e'.space.mapping (pageOf address) = e.space.mapping (pageOf address) ∧
      e'.userByte address = e.userByte address
  new : ∀ address, pages (pageOf address) → ∃ mapping,
    e'.space.mapping (pageOf address) = some mapping ∧
      (Addressable target e.hardware mapping.physicalFrame → e'.userByte address = some 0)
  ready : e'.hardware.directMapReady = e.hardware.directMapReady
  top : e'.space.stackTop = e.space.stackTop

section Grown

variable {pages pages' : Nat → Prop} {e₁ e₂ : Env}

theorem grown_none (target : Machine) (h : ∀ address, ¬ pages (pageOf address)) (e : Env) :
    Grown target pages e e :=
  ⟨fun _ _ => ⟨rfl, rfl⟩, fun address hpage => absurd hpage (h address), rfl, rfl⟩

theorem Grown.congr (h : Grown target pages e e₁)
    (hiff : ∀ address, pages' (pageOf address) ↔ pages (pageOf address)) :
    Grown target pages' e e₁ :=
  ⟨fun address hpage => h.old address fun hin => hpage ((hiff address).mpr hin),
    fun address hpage => h.new address ((hiff address).mp hpage), h.ready, h.top⟩

theorem Grown.trans (h : Grown target pages e e₁) (h' : Grown target pages' e₁ e₂) :
    Grown target (fun page => pages page ∨ pages' page) e e₂ := by
  refine ⟨fun address hpage => ?_, fun address hpage => ?_, h'.ready.trans h.ready,
    h'.top.trans h.top⟩
  · rw [not_or] at hpage
    rcases h.old address hpage.1 with ⟨hmapping, hbyte⟩
    rcases h'.old address hpage.2 with ⟨hmapping', hbyte'⟩
    exact ⟨hmapping'.trans hmapping, hbyte'.trans hbyte⟩
  · by_cases hsecond : pages' (pageOf address)
    · rcases h'.new address hsecond with ⟨mapping, hmapping, hzero⟩
      exact ⟨mapping, hmapping, fun haddress => hzero (addressable_of_ready h.ready haddress)⟩
    · rcases h.new address (hpage.resolve_right hsecond) with ⟨mapping, hmapping, hzero⟩
      rcases h'.old address hsecond with ⟨hmapping', hbyte'⟩
      exact ⟨mapping, hmapping'.trans hmapping, fun haddress => hbyte'.trans (hzero haddress)⟩

/-- A page that is added is new and zero, and the others are what they were. -/
theorem Added.grown (h : Filling info target others lost e)
    (hadded : Added info target virtualAddress flags kind e mapping e₁) :
    Grown target (fun page => page = virtualAddress) e e₁ := by
  have hpages := hadded.mapped.pagesOk h.pages
  have hfind {page : Nat} {found : MappingInfo} : e₁.space.mapping page = some found ↔
      (found = mapping ∨ found ∈ e.space.mappings.entries) ∧ found.virtualAddress = page := by
    rw [mapping_eq_some_iff hpages.distinct, hadded.mapped.entries.mem_iff, List.mem_cons]
  have hready : e₁.hardware.directMapReady = e.hardware.directMapReady := by
    rw [hadded.hardware]
    exact zeroFrame_ready _ _ _
  have hpaged := (h.added hadded).paged
  refine ⟨fun address hpage => ?_, fun address hpage => ?_, hready, hadded.mapped.fields.1⟩
  · have hsame : e₁.space.mapping (pageOf address) = e.space.mapping (pageOf address) := by
      refine Option.ext fun found => ?_
      rw [hfind, mapping_eq_some_iff h.pages.distinct]
      refine and_congr_left fun haddress => or_iff_right fun heq => hpage ?_
      rw [← haddress, heq, hadded.mapped.address]
    refine ⟨hsame, ?_⟩
    have hlt := lt_pageOf address
    unfold Env.userByte
    rw [hsame]
    cases hother : e.space.mapping (pageOf address) with
    | none => rfl
    | some other =>
      rw [hadded.hardware]
      have hne : other.physicalFrame ≠ mapping.physicalFrame :=
        frames_apart hpaged.frames (hsame.trans hother) (hfind.mpr ⟨.inl rfl, hadded.mapped.address⟩) hpage
      refine congrArg some (zeroFrame_other target e.hardware _ fun hin => hne ?_)
      exact inPage_unique (hpaged.aligned _ (mapping_some (hsame.trans hother)).1)
        (hpaged.aligned _ (hadded.mapped.entries.mem_iff.mpr List.mem_cons_self))
        ⟨by omega, by omega⟩ hin
  · refine ⟨mapping, hfind.mpr ⟨.inl rfl, hadded.mapped.address.trans hpage.symm⟩, fun haddress => ?_⟩
    have hmapping : e₁.space.mapping (pageOf address) = some mapping :=
      hfind.mpr ⟨.inl rfl, hadded.mapped.address.trans hpage.symm⟩
    have hlt := lt_pageOf address
    unfold Env.userByte
    rw [hmapping, hadded.hardware, zeroFrame_addressable haddress]
    exact congrArg some (Store.fill_self _ (by omega) (by omega))

end Grown

/-! ### The stack -/

theorem mapStackPage_filling (h : Filling info target others lost e) (first index : Nat) :
    wp (mapStackPage target first index)
      (fun _ e' => Filling info target others lost e' ∧ ∃ mapping,
        Added info target (first + index * pageSize) PageFlags.userRw .stack e mapping e')
      (fun _ e' => Filling info target others lost e') e := by
  refine wp_mapStackPage ?_ (fun e' rollback he' => removeMapping_filling he' _) fun _ _ he' => he'
  exact wp_post (mapPage_filling h (first + index * pageSize) PageFlags.userRw .stack)
    fun mapping e' he' => ⟨he'.1, mapping, he'.2⟩

theorem Filling.guarded (h : Filling info target others lost e) (pages bottom : Nat) :
    Filling info target others lost (e.setSpace (e.space.guarded pages bottom)) :=
  ⟨h.ledger, h.live, h.inactive, h.tables, h.room, ⟨h.pages.distinct, h.pages.inside, h.pages.user⟩⟩

/-- The two pages of a new stack have been mapped. -/
def Stacked (info : BootInfo) (target : Machine) (e e' : Env) : Prop :=
  ∃ first mapping e₁ mapping' e₂, first + initialStackPages * pageSize = e.space.stackTop ∧
    Added info target first PageFlags.userRw .stack e mapping e₁ ∧
    Added info target (first + pageSize) PageFlags.userRw .stack e₁ mapping' e₂ ∧
    e' = e₂.setSpace (e₂.space.guarded initialStackPages first)

/-- The pages of the stack are new. -/
theorem Stacked.grown (h : Filling info target others lost e) (hstacked : Stacked info target e e') :
    ∃ first, first + 2 * pageSize = e.space.stackTop ∧ IsFree e.space first ∧
      IsFree e.space (first + pageSize) ∧
      Grown target (fun page => page = first ∨ page = first + pageSize) e e' := by
  rcases hstacked with ⟨first, mapping, e₁, mapping', e₂, htop, h₁, h₂, rfl⟩
  have hgrown := (Added.grown h h₁).trans (Added.grown (h.added h₁) h₂)
  exact ⟨first, htop, h₁.mapped.isFree, (h₁.mapped.isFree_iff.mp h₂.mapped.isFree).1,
    hgrown.old, hgrown.new, hgrown.ready, hgrown.top⟩

theorem mapStack_filling (h : Filling info target others lost e) :
    wp (mapStack target)
      (fun _ e' => Filling info target others lost e' ∧ Stacked info target e e')
      (fun _ e' => Filling info target others lost e') e := by
  refine wp_mapStack (fun _ => h) fun first _ _ htop => ?_
  refine wp_post (mapStackPage_filling h first 0) (fun _ e₁ h₁ => ?_)
  rcases h₁ with ⟨h₁, mapping, hadded₁⟩
  refine wp_post (mapStackPage_filling h₁ first 1) (fun _ e₂ h₂ => ?_)
  rcases h₂ with ⟨h₂, mapping', hadded₂⟩
  rw [Nat.zero_mul, Nat.add_zero] at hadded₁
  exact ⟨h₂.guarded initialStackPages first, first, mapping, e₁, mapping', e₂, htop, hadded₁,
    hadded₂, rfl⟩

/-! ### Giving up -/

/-- Destroying it gives back all its frames. -/
theorem destroy_filling (h : Filling info target others lost e) :
    wp (destroy target) (fun _ e' => Accounts info others lost e'.frames) (fun _ _ => False) e := by
  refine destroy_room h.ledger h.live ?_
  rw [h.tables]
  exact h.room

end Space

end Norx
