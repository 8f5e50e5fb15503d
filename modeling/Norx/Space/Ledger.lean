import Norx.Space.Effects

/-!
# Where the Frames of Address Spaces Are

A frame that is handed out is the root, a page or a table of a space that is
not destroyed, or it is lost. Every operation is followed through all its early
returns to what it leaves of this account, with the other spaces' frames as a
list of their own that it does not touch.

`destroy` gives back the pages before it takes them out of the list. If one of
them is refused after others were taken, the others are on the returned list
and still recorded, so the account is good only if the returned list has room
for all of them, or for none.

## Theorems

* `mapPage_ledger`, `removeMapping_ledger`, `releaseTableFrames_ledger`: The parts.
-/

namespace Norx

namespace Space

open Fallible Memory Slots List

namespace AddressSpace

/-- The frames of the pages. -/
def mapped (space : AddressSpace) : List UInt64 :=
  space.mappings.entries.map MappingInfo.physicalFrame

/-- The frames of a space; a destroyed one has none. -/
def owned (space : AddressSpace) : List UInt64 :=
  match space.rootFrame with
  | none => []
  | some root => root :: (space.mapped ++ space.tableFrames.entries)

end AddressSpace

/-- The frames handed out are those lost, those of other spaces and those of
    the space, each once. -/
abbrev Ledger (info : BootInfo) (others lost : List UInt64) (e : Env) : Prop :=
  Accounts info (others ++ e.space.owned) lost e.frames

/-- What is left after a mapping could not be entered. A frame is lost only when
    the list of table frames is full. -/
def Spilled (info : BootInfo) (target : Machine) (others lost : List UInt64) (e : Env) : Prop :=
  ∃ extra, Ledger info others (extra ++ lost) e ∧
    (extra ≠ [] → target = .x86_64 ∧ e.space.tableFrames.entries.length = maxTableFrames)

variable {info : BootInfo} {target : Machine} {others lost : List UInt64}

theorem spilled {e : Env} (h : Ledger info others lost e) : Spilled info target others lost e :=
  ⟨[], h, fun hne => absurd rfl hne⟩

/-! ### The rules for frames -/

variable {Q : Bool → Env → Prop}

section Rules

variable {e : Env} {E : Error → Env → Prop}

theorem wp_freeFrame {frame : UInt64} (hsafe : Safe info e.frames) (hlive : frame ∈ e.frames.live)
    (htrue : ∀ h, Given info e.frames frame h → Q true (e.setFrames h))
    (hfalse : e.frames.state.returnedCount = maxReturnedFrames → Q false e) :
    wp (freeFrame frame) Q E e := by
  unfold freeFrame
  rw [wp_within, wp_act]
  rcases give_cases hsafe hlive with ⟨hresult, hgiven⟩ | ⟨hgive, hfull⟩
  · rw [hresult]
    exact htrue _ hgiven
  · rw [hgive]
    exact hfalse hfull

end Rules

/-! ### The paging module -/

/-- The account of the paging code and that of its caller are one. -/
theorem ledger_paging {e : Env} {root : UInt64} (hroot : e.space.rootFrame = some root)
    (s : Paging.State) : Ledger info others lost (e.setPaging s) ↔
      Paging.Ledger info (others ++ root :: e.space.mapped) lost s := by
  have howned : others ++ (e.setPaging s).space.owned =
      others ++ root :: e.space.mapped ++ s.tables.entries := by
    have hroot' : (e.setPaging s).space.rootFrame = some root := hroot
    rw [AddressSpace.owned, hroot', append_assoc]
    rfl
  unfold Ledger Paging.Ledger
  rw [howned]
  rfl

variable {E : Error → Env → Prop}

section

variable {e : Env} {root : UInt64}

theorem wp_userSpaceMap
    (h : Ledger info others lost e) (hroot : e.space.rootFrame = some root)
    (mapping : MappingInfo)
    (htrue : ∀ s, Ledger info others lost (e.setPaging s) → Paging.Within 3 e.paging s →
      Q true (e.setPaging s))
    (hfalse : ∀ s extra, Ledger info others (extra ++ lost) (e.setPaging s) →
      Paging.Within 3 e.paging s →
      (extra ≠ [] → target = .x86_64 ∧ s.tables.entries.length = maxTableFrames ∧
        maxTableFrames < e.space.tableFrames.entries.length + 3) → Q false (e.setPaging s)) :
    wp (userSpaceMap target root mapping) Q E e := by
  have hledger := (ledger_paging hroot e.paging).mp h
  unfold userSpaceMap
  rw [wp_succeeds, wp_within]
  refine wp_mono (Paging.userSpaceMap_ledger (walker_orderly target) hledger root mapping)
    (fun _ s hs => ?_) fun _ s hs => ?_
  · exact htrue s ((ledger_paging hroot s).mpr hs.1) hs.2
  · rcases hs with ⟨extra, hextra, hwithin, hleak⟩
    exact hfalse s extra ((ledger_paging hroot s).mpr hextra) hwithin hleak

end

/-! ### Mapping and taking out -/

variable {space : AddressSpace} {slot : Nat} {mapping : MappingInfo}

section Mappings

variable {e : Env}

theorem owned_of_root (space : AddressSpace) {root : UInt64} (hroot : space.rootFrame = some root) :
    space.owned = root :: (space.mapped ++ space.tableFrames.entries) := by
  rw [AddressSpace.owned, hroot]

theorem owned_fill {root : UInt64} (hroot : space.rootFrame = some root)
    (hslot : space.mappings.position Option.isNone = some slot) (mapping : MappingInfo) :
    (space.setMapping slot (some mapping)).owned.Perm (mapping.physicalFrame :: space.owned) := by
  rcases position_eq_some.mp hslot with ⟨hlt, hnone, _⟩
  have hfill := (entries_fill hlt (Option.isNone_iff_eq_none.mp hnone) mapping).map
    MappingInfo.physicalFrame
  rw [owned_of_root space hroot, owned_of_root (space.setMapping slot (some mapping)) hroot]
  exact ((hfill.append_right space.tableFrames.entries).cons root).trans (List.Perm.swap _ _ _)

theorem owned_clear {root : UInt64} (hroot : space.rootFrame = some root)
    (hslot : space.mappings.get slot = some mapping) :
    space.owned.Perm (mapping.physicalFrame :: (space.setMapping slot none).owned) := by
  have hclear := (entries_clear hslot).map MappingInfo.physicalFrame
  rw [owned_of_root space hroot, owned_of_root (space.setMapping slot none) hroot]
  exact ((hclear.append_right space.tableFrames.entries).cons root).trans (List.Perm.swap _ _ _)

/-- A frame in hand becomes a page. -/
theorem Ledger.fill {root : UInt64} (h : Ledger info others (mapping.physicalFrame :: lost) e)
    (hroot : e.space.rootFrame = some root)
    (hslot : e.space.mappings.position Option.isNone = some slot) :
    Ledger info others lost (e.setMapping slot (some mapping)) :=
  h.record (((owned_fill hroot hslot mapping).append_left others).trans perm_middle)

/-- A page is taken out of the list. -/
theorem Ledger.clear {root : UInt64} (h : Ledger info others lost e)
    (hroot : e.space.rootFrame = some root) (hslot : e.space.mappings.get slot = some mapping) :
    Ledger info others (mapping.physicalFrame :: lost) (e.setMapping slot none) :=
  h.strike (((owned_clear hroot hslot).append_left others).trans perm_middle)

theorem mapPage_ledger (h : Ledger info others lost e) (virtualAddress : Nat) (flags : PageFlags)
    (kind : MappingKind) :
    wp (mapPage target virtualAddress flags kind)
      (fun _ e' => Ledger info others lost e')
      (fun _ e' => Spilled info target others lost e') e := by
  refine wp_mapPage (fun _ => spilled h) (fun hnone => spilled (h.exhausted (take_none h.safe hnone)))
    fun slot mapping root hroot hslot hframe _ => ?_
  have htaken := take_some h.safe hframe
  have hfilled : Ledger info others lost (e.added target slot mapping) :=
    Ledger.fill (e := (e.setFrames e.frames.take.2).setHardware _) (h.taken htaken) hroot hslot
  refine ⟨fun _ => hfilled, fun _ => ?_⟩
  refine wp_userSpaceMap hfilled hroot mapping (fun s hs _ => ?_) fun s extra hs hwithin hleak => ?_
  · exact ⟨fun _ => hs, nofun⟩
  · -- The mapping is taken out again, and the list has the room its frame left.
    refine ⟨nofun, fun _ => ?_⟩
    have hlt := (position_eq_some.mp hslot).1
    have hback := Ledger.clear hs hroot (get_set_self e.space.mappings (some mapping) hlt)
    refine wp_freeFrame hback.safe hback.mem_live (fun h' hgiven => ?_) fun hfull => ?_
    · exact ⟨extra, hback.given hgiven, fun hne => ⟨(hleak hne).1, (hleak hne).2.1⟩⟩
    · have hcount := hwithin.count
      have hless := htaken.count
      have hmost := h.safe.count
      have hone : 1 < maxReturnedFrames := by decide
      change s.frames.state.returnedCount ≤ max e.frames.take.2.state.returnedCount 1 at hcount
      change s.frames.state.returnedCount = maxReturnedFrames at hfull
      omega

/-- A page was taken out or not, and nothing else. -/
structure Kept (info : BootInfo) (others lost : List UInt64) (e e' : Env) : Prop where
  ledger : Ledger info others lost e'
  tables : e'.space.tableFrames = e.space.tableFrames

theorem removeMapping_ledger (h : Ledger info others lost e) (hlive : e.space.rootFrame ≠ none)
    (virtualAddress : Nat) :
    wp (removeMapping target virtualAddress) (fun _ => Kept info others lost e)
      (fun _ => Kept info others lost e) e := by
  obtain ⟨root, hroot⟩ := Option.ne_none_iff_exists'.mp hlive
  refine wp_removeMapping (fun _ _ => ⟨h, rfl⟩) fun slot mapping hardware hslot hget => ?_
  have hheld := Ledger.clear (e := e.setHardware hardware) h hroot hget
  refine wp_freeFrame hheld.safe hheld.mem_live (fun h' hgiven => ?_) fun _ => ?_
  · exact ⟨nofun, fun _ => ⟨hheld.given hgiven, rfl⟩⟩
  · refine ⟨fun _ => ⟨?_, rfl⟩, fun hne => absurd rfl hne⟩
    change Accounts info (others ++ ((e.space.setMapping slot none).setMapping slot
      (some mapping)).owned) lost e.frames
    rw [setMapping_back hget]
    exact h

variable {space' : AddressSpace}

theorem Mapped.root {virtualAddress : Nat} {flags : PageFlags} {kind : MappingKind}
    (h : Mapped target virtualAddress flags kind space mapping space') :
    space'.rootFrame = space.rootFrame := by
  rcases h.filled with ⟨slot, _, tables, rfl⟩
  rfl

theorem TablesOnly.root (h : TablesOnly space space') : space'.rootFrame = space.rootFrame := by
  rcases h with ⟨tables, rfl⟩
  rfl

section

variable (h : Ledger info others lost e)

include h

theorem mapStackPage_ledger (hlive : e.space.rootFrame ≠ none) (first index : Nat) :
    wp (mapStackPage target first index)
      (fun _ e' => Ledger info others lost e' ∧ e'.space.rootFrame ≠ none)
      (fun _ e' => Spilled info target others lost e') e := by
  refine wp_mapStackPage (I := fun e' => Spilled info target others lost e' ∧
      e'.space.rootFrame ≠ none) ?_ (fun e' rollback he' => ?_) fun _ _ he' => he'.1
  · refine wp_mono (wp_and (mapPage_ledger h (first + index * pageSize) PageFlags.userRw .stack)
      (mapPage_effect (first + index * pageSize) PageFlags.userRw .stack))
      (fun _ e' he' => ⟨he'.1, ?_⟩) fun error e' he' => ⟨he'.1, ?_⟩
    · rw [he'.2.root]
      exact hlive
    · rw [he'.2.root]
      exact hlive
  · -- A page that is taken back is given back or stays.
    rcases he' with ⟨⟨extra, hextra, hleak⟩, hlive'⟩
    have hkept {e₁ : Env} (hkept : Kept info others (extra ++ lost) e' e₁) :
        Spilled info target others lost e₁ :=
      ⟨extra, hkept.ledger, fun hne => hkept.tables ▸ hleak hne⟩
    refine wp_mono (wp_and (removeMapping_ledger hextra hlive' _) (removeMapping_effect _))
      (fun _ e₁ h₁ => ⟨hkept h₁.1, ?_⟩) fun _ e₁ h₁ => ⟨hkept h₁.1, ?_⟩
    · rcases h₁.2 with ⟨slot, _, hspace⟩
      rw [hspace]
      exact hlive'
    · rw [h₁.2]
      exact hlive'

theorem mapStack_ledger :
    wp (mapStack target) (fun _ e' => Ledger info others lost e')
      (fun _ e' => Spilled info target others lost e') e := by
  refine wp_mapStack (fun _ => spilled h) fun first _ hlive _ => ?_
  refine wp_post (mapStackPage_ledger h hlive first 0) (fun _ e₁ h₁ => ?_)
  exact wp_post (mapStackPage_ledger h₁.1 h₁.2 first 1) (fun _ e₂ h₂ => h₂.1)

theorem growStack_ledger (faultAddress : Nat) :
    wp (growStack target faultAddress) (fun _ e' => Ledger info others lost e')
      (fun _ e' => Spilled info target others lost e') e := by
  unfold growStack
  rw [wp_bind, wp_read]
  cases hguard : e.space.stackGuard with
  | none => exact h
  | some guard_ =>
    simp only [wp_bind, wp_ite, wp_read, wp_pure]
    refine ⟨fun _ => h, fun _ => ⟨fun _ => h, fun _ => ?_⟩⟩
    exact wp_post (mapPage_ledger h guard_ PageFlags.userRw .stack) (fun _ _ h => h)

theorem unmapPage_ledger (hlive : e.space.rootFrame ≠ none) (virtualAddress : Nat) :
    wp (unmapPage target virtualAddress) (fun _ e' => Ledger info others lost e')
      (fun _ e' => Ledger info others lost e') e := by
  unfold unmapPage
  simp
  refine ⟨fun mapping _ => ⟨fun _ => h, fun _ => ?_⟩, fun _ => h⟩
  exact wp_mono (removeMapping_ledger h hlive virtualAddress) (fun _ _ h => h.ledger)
    fun _ _ h => h.ledger

end

end Mappings

/-! ### Giving back -/

section Releases

variable {e : Env}

section Rooted

variable {root : UInt64} (h : Ledger info others lost e) (hroot : e.space.rootFrame = some root)

include h hroot

/-- Every table frame is on the returned list or lost, and one is lost only when
    that list is full at the end. -/
theorem releaseTableFrames_ledger :
    wp releaseTableFrames (fun _ e' => ∃ extra held,
      e' = (e.setSpace e.space.bare).setFrames held ∧ Ledger info others (extra ++ lost) e' ∧
      held.state.returnedCount + extra.length =
        e.frames.state.returnedCount + e.space.tableFrames.entries.length ∧
      (extra ≠ [] → held.state.returnedCount = maxReturnedFrames)) E e := by
  unfold releaseTableFrames
  have hstart : Accounts info (others ++ e.space.bare.owned)
      (e.space.tableFrames.entries ++ [] ++ lost) e.frames := by
    refine h.shift ?_
    have hbare : e.space.bare.owned = root :: (e.space.mapped ++ []) := by
      rw [owned_of_root e.space.bare hroot]
      change root :: (e.space.mapped ++ (Slots.replicate maxTableFrames none).entries) = _
      rw [entries_replicate]
    rw [hbare, owned_of_root e.space hroot, append_nil, append_nil]
    refine perm_iff_count.mpr fun frame => ?_
    simp [count_cons]
    omega
  refine wp_post (wp_forM (E := E) (fun remaining e' => ∃ extra held,
      e' = (e.setSpace e.space.bare).setFrames held ∧
      Accounts info (others ++ e.space.bare.owned) (remaining ++ extra ++ lost) held ∧
      held.state.returnedCount + remaining.length + extra.length =
        e.frames.state.returnedCount + e.space.tableFrames.entries.length ∧
      (extra ≠ [] → held.state.returnedCount = maxReturnedFrames))
    (fun frame rest e' he' => ?_) _ _ ⟨[], e.frames, rfl, hstart, by simp, nofun⟩)
    (fun _ e' he' => ?_)
  · rcases he' with ⟨extra, held, rfl, haccounts, hcount, hfull⟩
    rw [wp_bind]
    refine wp_freeFrame (e := (e.setSpace e.space.bare).setFrames held) haccounts.safe
      haccounts.mem_live (fun held' hgiven => ?_) fun hfull' => ?_
    · refine ⟨extra, held', rfl, haccounts.given hgiven, ?_, fun hne => ?_⟩
      · have hnext := hgiven.count
        change held'.state.returnedCount = held.state.returnedCount + 1 at hnext
        rw [length_cons] at hcount
        omega
      · have hroom := hgiven.room
        exact absurd (hfull hne) (Nat.ne_of_lt hroom)
    · refine ⟨frame :: extra, held, rfl, haccounts.shift ?_, ?_, fun _ => hfull'⟩
      · refine perm_iff_count.mpr fun other => ?_
        simp [count_cons]
        omega
      · rw [length_cons] at hcount ⊢
        omega
  · rcases he' with ⟨extra, held, rfl, haccounts, hcount, hfull⟩
    exact ⟨extra, held, rfl, haccounts, hcount, hfull⟩

/-- The pages are given back in order, up to the end or to the first that finds
    the list full. -/
theorem releasePages_ledger :
    wp releasePages
      (fun _ e' => ∃ held, e' = (e.setSpace e.space.cleared).setFrames held ∧
        Ledger info others lost e' ∧ held.state.returnedCount =
          e.frames.state.returnedCount + e.space.mappings.entries.length)
      (fun _ e' => ∃ held given rest, e' = e.setFrames held ∧
        e.space.mappings.entries = given ++ rest ∧ rest ≠ [] ∧
        held.returned = e.frames.returned ++ given.map MappingInfo.physicalFrame ∧
        e.frames.state.returnedCount + given.length = maxReturnedFrames ∧
        (given = [] → held = e.frames)) e := by
  unfold releasePages
  rw [wp_bind, wp_read, wp_bind]
  -- All pages are in hand, those given back excepted.
  have hstart : Accounts info (others ++ e.space.cleared.owned)
      (e.space.mappings.entries.map MappingInfo.physicalFrame ++ lost) e.frames := by
    refine h.shift ?_
    have hcleared : e.space.cleared.owned = root :: ([] ++ e.space.tableFrames.entries) := by
      rw [owned_of_root e.space.cleared hroot]
      change root :: ((Slots.replicate maxMappings none).entries.map _ ++ _) = _
      rfl
    rw [hcleared, owned_of_root e.space hroot, nil_append]
    refine perm_iff_count.mpr fun frame => ?_
    simp [count_cons, AddressSpace.mapped]
    omega
  refine wp_post (wp_forM
    (E := fun _ e' => ∃ held given rest, e' = e.setFrames held ∧
      e.space.mappings.entries = given ++ rest ∧ rest ≠ [] ∧
      held.returned = e.frames.returned ++ given.map MappingInfo.physicalFrame ∧
      e.frames.state.returnedCount + given.length = maxReturnedFrames ∧
      (given = [] → held = e.frames))
    (fun remaining e' => ∃ held given, e' = e.setFrames held ∧
      e.space.mappings.entries = given ++ remaining ∧
      Accounts info (others ++ e.space.cleared.owned)
        (remaining.map MappingInfo.physicalFrame ++ lost) held ∧
      held.returned = e.frames.returned ++ given.map MappingInfo.physicalFrame ∧
      held.state.returnedCount = e.frames.state.returnedCount + given.length ∧
      (given = [] → held = e.frames))
    (fun mapping rest e' he' => ?_) _ e
    ⟨e.frames, [], rfl, rfl, hstart, (append_nil _).symm, rfl, fun _ => rfl⟩)
    (fun _ e' he' => ?_)
  · rcases he' with ⟨held, given, rfl, hentries, haccounts, hreturned, hcount, hnone⟩
    simp only [wp_bind, wp_ite, wp_fail, wp_pure]
    refine wp_freeFrame (e := e.setFrames held) haccounts.safe haccounts.mem_live
      (fun held' hgiven => ?_) fun hfull => ?_
    · refine ⟨by rintro ⟨⟩, fun _ => ⟨held', given ++ [mapping], rfl, ?_, haccounts.given hgiven, ?_, ?_,
        fun hnil => absurd hnil (by simp)⟩⟩
      · rw [hentries, append_assoc]
        rfl
      · have hnext := hgiven.returned
        change held'.returned = held.returned ++ [mapping.physicalFrame] at hnext
        rw [hnext, hreturned, map_append, append_assoc]
        rfl
      · have hnext := hgiven.count
        change held'.state.returnedCount = held.state.returnedCount + 1 at hnext
        rw [hnext, hcount, length_append]
        rfl
    · refine ⟨fun _ => ⟨held, given, mapping :: rest, rfl, hentries, cons_ne_nil _ _, hreturned, ?_, hnone⟩,
        fun hne => absurd rfl hne⟩
      rw [← hcount]
      exact hfull
  · rcases he' with ⟨held, given, rfl, hentries, haccounts, _, hcount, _⟩
    rw [append_nil] at hentries
    exact ⟨held, rfl, haccounts, by rw [hcount, hentries]⟩

end Rooted

/-- The returned list takes all the pages of a space, or none of them. -/
def Room (e : Env) : Prop :=
  e.frames.state.returnedCount + e.space.mappings.entries.length ≤ maxReturnedFrames ∨
    e.frames.state.returnedCount = maxReturnedFrames

instance (e : Env) : Decidable (Room e) := inferInstanceAs (Decidable (_ ∨ _))

theorem owned_of_empty {root : UInt64} (hroot : space.rootFrame = some root)
    (hmappings : space.mappings = Slots.replicate maxMappings none)
    (htables : space.tableFrames = Slots.replicate maxTableFrames none) : space.owned = [root] := by
  rw [owned_of_root space hroot, AddressSpace.mapped, hmappings, htables, entries_replicate,
    entries_replicate]
  rfl

/-- A destroyed space has no frames. -/
theorem ledger_of_gone (h : Accounts info others lost e.frames) (hnone : e.space.rootFrame = none) :
    Ledger info others lost e := by
  unfold Ledger
  rw [AddressSpace.owned, hnone, append_nil]
  exact h

/-- The root of a space that has nothing else is given back or lost. -/
theorem releaseRoot_ledger {root : UInt64} (h : Ledger info others lost e)
    (hroot : e.space.rootFrame = some root) (howned : e.space.owned = [root]) :
    wp releaseRoot
      (fun _ e' => Accounts info others lost e'.frames ∧ e'.space.rootFrame = none ∧
        e.frames.state.returnedCount < maxReturnedFrames)
      (fun _ e' => Ledger info others (root :: lost) e' ∧
        e.frames.state.returnedCount = maxReturnedFrames) e := by
  unfold releaseRoot
  simp only [wp_bind, wp_lookup, wp_modify, wp_ite, wp_fail, wp_pure]
  refine ⟨fun root' hroot' => ?_, fun hnone => absurd hnone (by rw [hroot]; rintro ⟨⟩)⟩
  rw [hroot] at hroot'
  injection hroot' with hroot'
  subst hroot'
  have hheld : Accounts info others (root :: lost) e.frames := by
    refine h.strike ?_
    rw [howned]
    exact perm_append_comm
  refine wp_freeFrame (e := e.setSpace { e.space with rootFrame := none }) hheld.safe
    hheld.mem_live (fun held hgiven => ?_) fun hfull => ?_
  · exact ⟨by rintro ⟨⟩, fun _ => ⟨hheld.given hgiven, rfl, hgiven.room⟩⟩
  · exact ⟨fun _ => ⟨ledger_of_gone hheld rfl, hfull⟩, fun hne => absurd rfl hne⟩

/-- The returned list takes all the frames of a space, or none of its pages. -/
def Fits (e : Env) : Prop :=
  e.frames.state.returnedCount + e.space.mappings.entries.length +
      e.space.tableFrames.entries.length + 1 ≤ maxReturnedFrames ∨
    (e.frames.state.returnedCount = maxReturnedFrames ∧ e.space.mappings.entries ≠ [])

/-- How destroying a space ends: all its frames are given back, or a page is
    refused, or all pages are given back and tables or the root are lost. -/
theorem destroy_ends {root : UInt64} (h : Ledger info others lost e)
    (hroot : e.space.rootFrame = some root) :
    wp (destroy target)
      (fun _ e' => Accounts info others lost e'.frames ∧ e'.space.rootFrame = none ∧
        e.frames.state.returnedCount + e.space.mappings.entries.length ≤ maxReturnedFrames)
      (fun _ e' => (∃ given rest, e'.space = { e.space with active := false } ∧
          e.space.mappings.entries = given ++ rest ∧ rest ≠ [] ∧
          e'.frames.returned = e.frames.returned ++ given.map MappingInfo.physicalFrame ∧
          e.frames.state.returnedCount + given.length = maxReturnedFrames ∧
          (given = [] → e'.frames = e.frames)) ∨
        ∃ extra, Ledger info others (extra ++ lost) e' ∧
          e.frames.state.returnedCount + e.space.mappings.entries.length ≤ maxReturnedFrames ∧
          maxReturnedFrames ≤ e.frames.state.returnedCount + e.space.mappings.entries.length +
            e.space.tableFrames.entries.length) e := by
  have hlive : e.space.rootFrame ≠ none := by
    rw [hroot]
    exact nofun
  unfold destroy
  rw [wp_bind, wp_lookup]
  refine ⟨fun root' hroot' => ?_, fun hnone => absurd hnone hlive⟩
  rw [wp_bind]
  refine deactivate_effect fun hardware => ?_
  set e₁ := (e.setSpace { e.space with active := false }).setHardware hardware
  have h₁ : Ledger info others lost e₁ := h
  simp only [wp_bind, wp_read, wp_ite, wp_fail]
  refine ⟨fun hnone => absurd hnone hlive, fun _ => ?_⟩
  refine wp_mono (releasePages_ledger h₁ hroot) (fun _ e₂ h₂ => ?_) fun _ e₂ h₂ => ?_
  · rcases h₂ with ⟨held, rfl, h₂, hcount⟩
    have hmost : held.state.returnedCount ≤ maxReturnedFrames := h₂.safe.count
    change held.state.returnedCount = e.frames.state.returnedCount +
      e.space.mappings.entries.length at hcount
    refine wp_post (releaseTableFrames_ledger h₂ hroot) (fun _ e₃ h₃ => ?_)
    rcases h₃ with ⟨extra, held', rfl, h₃, hcount', hfull⟩
    change held'.state.returnedCount + extra.length = held.state.returnedCount +
      e.space.tableFrames.entries.length at hcount'
    refine wp_mono (releaseRoot_ledger h₃ hroot (owned_of_empty hroot rfl rfl))
      (fun _ e₄ h₄ => ?_) fun _ e₄ h₄ => .inr ⟨root :: extra, h₄.1, hcount ▸ hmost, ?_⟩
    · -- There was room for the root, so no table is lost.
      have hnone : extra = [] := by
        by_contra hsome
        exact absurd (hfull hsome) (Nat.ne_of_lt h₄.2.2)
      subst hnone
      exact ⟨h₄.1, h₄.2.1, hcount ▸ hmost⟩
    · have hfull' : held'.state.returnedCount = maxReturnedFrames := h₄.2
      omega
  · rcases h₂ with ⟨held, given, rest, rfl, hrefused⟩
    exact .inl ⟨given, rest, rfl, hrefused⟩

theorem destroy_ledger (h : Ledger info others lost e) (hroom : e.space.rootFrame ≠ none → Room e) :
    wp (destroy target)
      (fun _ e' => ∃ extra, Ledger info others (extra ++ lost) e' ∧ (Fits e → extra = []))
      (fun _ e' => ∃ extra, Ledger info others (extra ++ lost) e' ∧ (Fits e → extra = [])) e := by
  cases hroot : e.space.rootFrame with
  | none =>
    unfold destroy
    rw [wp_bind, wp_lookup, hroot]
    exact ⟨nofun, fun _ => ⟨[], h, fun _ => rfl⟩⟩
  | some root =>
    have hroom : Room e := hroom (by rw [hroot]; exact nofun)
    refine wp_mono (destroy_ends h hroot) (fun _ e' h' => ?_) fun _ e' h' => ?_
    · exact ⟨[], ledger_of_gone h'.1 h'.2.1, fun _ => rfl⟩
    rcases h' with ⟨given, rest, hspace, hentries, hrest, -, hcount, hnone⟩ | ⟨extra, h', hmost, hleast⟩
    · -- With room for all pages or none, the first one was refused.
      have hgiven : given = [] := by
        by_contra hne
        have hpos := length_pos_iff.mpr hne
        have hpos' := length_pos_iff.mpr hrest
        have hlen := congrArg List.length hentries
        rw [length_append] at hlen
        unfold Room at hroom
        omega
      refine ⟨[], ?_, fun _ => rfl⟩
      unfold Ledger
      rw [hspace, hnone hgiven]
      exact h
    · refine ⟨extra, h', fun hfits => ?_⟩
      rcases hfits with hfits | ⟨hfull, hsome⟩
      · omega
      · have hpos := length_pos_iff.mpr hsome
        omega

/-- With room for all its frames, destroying a space gives all of them back. -/
theorem destroy_room (h : Ledger info others lost e) (hlive : e.space.rootFrame ≠ none)
    (hroom : e.frames.state.returnedCount + e.space.mappings.entries.length +
      e.space.tableFrames.entries.length + 1 ≤ maxReturnedFrames) :
    wp (destroy target) (fun _ e' => Accounts info others lost e'.frames) (fun _ _ => False) e := by
  obtain ⟨root, hroot⟩ := Option.ne_none_iff_exists'.mp hlive
  refine wp_mono (destroy_ends h hroot) (fun _ _ h' => h'.1) fun _ e' h' => ?_
  rcases h' with ⟨given, rest, -, hentries, -, -, hcount, -⟩ | ⟨extra, -, -, hleast⟩
  · have hlen := congrArg List.length hentries
    rw [length_append] at hlen
    omega
  · omega

theorem destroy_torn (target : Machine) (h : Ledger info others lost e) {root : UInt64}
    (hroot : e.space.rootFrame = some root) (hroom : ¬ Room e) :
    wp (destroy target) (fun _ _ => False) (fun _ e' => e'.space = { e.space with active := false } ∧
      ∃ frame ∈ e.space.mapped, frame ∈ e'.frames.returned) e := by
  rw [Room, not_or] at hroom
  refine wp_mono (destroy_ends h hroot) (fun _ _ h' => hroom.1 h'.2.2) fun _ e' h' => ?_
  rcases h' with ⟨given, rest, hspace, hentries, -, hreturned, hcount, -⟩ | ⟨extra, -, hmost, -⟩
  · refine ⟨hspace, ?_⟩
    cases given with
    | nil => exact absurd hcount hroom.2
    | cons mapping given =>
      refine ⟨mapping.physicalFrame, mem_map_of_mem ?_, ?_⟩
      · rw [hentries]
        exact mem_cons_self
      · rw [hreturned]
        exact mem_append_right _ mem_cons_self
  · exact absurd hmost hroom.1

/-! ### The hardware's tables -/

/-- What is left when the tables could not be built: frames are lost only for
    want of room in one of the two lists. -/
def Dropped (info : BootInfo) (target : Machine) (others lost : List UInt64) (tables : Nat)
    (e' : Env) : Prop :=
  ∃ extra, Ledger info others (extra ++ lost) e' ∧
    (extra ≠ [] → e'.space.active = false ∧ ((target = .x86_64 ∧ maxTableFrames < tables) ∨
      e'.frames.state.returnedCount = maxReturnedFrames))

theorem enterMapping_ledger {root : UInt64} (h : Ledger info others lost e)
    (hroot : e.space.rootFrame = some root) (hactive : e.space.active = false)
    (mapping : MappingInfo) :
    wp (enterMapping target root mapping)
      (fun _ e' => Ledger info others lost e' ∧ TablesOnly e.space e'.space ∧
        e'.space.tableFrames.entries.length ≤ e.space.tableFrames.entries.length + 3)
      (fun _ e' => Dropped info target others lost (e.space.tableFrames.entries.length + 3) e') e := by
  unfold enterMapping userSpaceReset
  simp only [wp_bind, wp_ite, wp_fail, wp_pure, wp_modify]
  refine wp_userSpaceMap h hroot mapping (fun s hs hwithin => ?_) fun s extra hs hwithin hleak => ?_
  · exact ⟨by rintro ⟨⟩, fun _ => ⟨hs, ⟨s.tables, rfl⟩, hwithin.tables⟩⟩
  · refine ⟨fun _ => ?_, fun hne => absurd rfl hne⟩
    have hreset (hardware : Hardware) :
        Ledger info others (extra ++ lost) ((e.setPaging s).setHardware hardware) := hs
    refine wp_post (releaseTableFrames_ledger (hreset _) hroot) (fun _ e' he' => ?_)
    rcases he' with ⟨extra', held, rfl, hledger, _, hfull⟩
    refine ⟨extra' ++ extra, by rwa [append_assoc], fun hne => ⟨hactive, ?_⟩⟩
    by_cases hnil : extra' = []
    · have hne' : extra ≠ [] := fun hnil' => hne (by rw [hnil, hnil', append_nil])
      exact .inl ⟨(hleak hne').1, (hleak hne').2.2⟩
    · exact .inr (hfull hnil)

theorem activate_ledger (h : Ledger info others lost e) :
    wp (activate target) (fun _ e' => Ledger info others lost e')
      (fun _ e' => Dropped info target others lost (e.space.tableFrames.entries.length +
        3 * e.space.mappings.entries.length) e') e := by
  have hsame (hardware : Hardware) : Dropped info target others lost
      (e.space.tableFrames.entries.length + 3 * e.space.mappings.entries.length)
      (e.setHardware hardware) := ⟨[], h, fun hne => absurd rfl hne⟩
  unfold activate
  rw [wp_bind, wp_lookup]
  refine ⟨fun root hroot => ?_, fun _ => hsame e.hardware⟩
  simp only [wp_bind, wp_read, wp_ite, wp_fail, userSpacePrepare, wp_within, wp_act]
  refine ⟨fun _ => hsame e.hardware, fun hactive => ⟨fun _ => hsame _, fun _ => ?_⟩⟩
  rw [Bool.not_eq_true] at hactive
  refine wp_post (wp_forM
    (E := fun _ e' => Dropped info target others lost (e.space.tableFrames.entries.length +
      3 * e.space.mappings.entries.length) e')
    (fun remaining e' => Ledger info others lost e' ∧ TablesOnly e.space e'.space ∧
      e'.space.tableFrames.entries.length + 3 * remaining.length ≤
        e.space.tableFrames.entries.length + 3 * e.space.mappings.entries.length)
    (fun mapping rest e' he' => ?_) _ _ ⟨h, tablesOnly_refl _, le_refl _⟩)
    (fun _ e' he' => he'.1)
  rcases he' with ⟨hledger, htables, hlen⟩
  rw [length_cons] at hlen
  have hactive' : e'.space.active = false := by
    rcases htables with ⟨tables, htables⟩
    rw [htables]
    exact hactive
  refine wp_mono (enterMapping_ledger hledger (htables.root.trans hroot) hactive' mapping)
    (fun _ e'' he'' => ?_) fun _ e'' he'' => ?_
  · exact ⟨he''.1, tablesOnly_trans htables he''.2.1, by have := he''.2.2; omega⟩
  · rcases he'' with ⟨extra, hextra, hlost⟩
    refine ⟨extra, hextra, fun hne => ?_⟩
    rcases hlost hne with ⟨hoff, ⟨htarget, hmost⟩ | hfull⟩
    · exact ⟨hoff, .inl ⟨htarget, by omega⟩⟩
    · exact ⟨hoff, .inr hfull⟩

end Releases

end Space

end Norx
