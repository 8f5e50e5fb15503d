import Norx.Space.Layout

/-!
# Memory as a Process Sees It

A byte of an address space is the byte of the frame its page is mapped to. As
long as every page has a frame of its own, a write through the mappings changes
the bytes it is meant to change and no others, across pages too.

## Theorems

* `userByte_patch`: A write to one frame, as the process sees it.
* `load_exact`: A load along a run.
-/

namespace Norx

namespace Space

open Fallible Memory List

/-- The byte at a user address, if its page is mapped. -/
def Env.userByte (e : Env) (address : Nat) : Option UInt8 :=
  (e.space.mapping (pageOf address)).map fun mapping =>
    e.hardware.memory (mapping.physicalFrame.toNat + (address - pageOf address))

/-- Every page has a frame of its own. -/
structure Paged (space : AddressSpace) : Prop where
  distinct : (space.mappings.entries.map MappingInfo.virtualAddress).Nodup
  frames : space.mapped.Nodup
  aligned : ∀ mapping ∈ space.mappings.entries, mapping.physicalFrame.toNat % 4096 = 0

variable {e : Env} {space : AddressSpace}

theorem Gone.sublist (h : Gone space) : space.mapped.Sublist space.owned := by
  cases hroot : space.rootFrame with
  | none =>
    rw [AddressSpace.mapped, h hroot, Slots.entries_replicate]
    exact nil_sublist _
  | some root =>
    rw [owned_of_root _ hroot]
    exact (sublist_append_left _ _).cons root

section Ledger

variable {info : BootInfo} {others lost : List UInt64} (h : Ledger info others lost e)
  (hgone : Gone e.space)

include h hgone

theorem Ledger.frames_nodup : e.space.mapped.Nodup :=
  (nodup_append.mp (nodup_append.mp h.nodup).2.1).2.1.sublist hgone.sublist

theorem Ledger.aligned (mapping : MappingInfo) (hmem : mapping ∈ e.space.mappings.entries) :
    mapping.physicalFrame.toNat % 4096 = 0 := by
  have hframe : mapping.physicalFrame ∈ e.frames.live :=
    h.perm.subset (mem_append_right _ (mem_append_right _
      (hgone.sublist.subset (mem_map_of_mem hmem))))
  exact (h.safe.usable _ (mem_append_right _ hframe)).1.aligned

theorem Ledger.paged
    (hdistinct : (e.space.mappings.entries.map MappingInfo.virtualAddress).Nodup) :
    Paged e.space :=
  ⟨hdistinct, h.frames_nodup hgone, h.aligned hgone⟩

end Ledger

/-- With distinct addresses, looking up a page is finding its mapping in the
    list. -/
theorem mapping_eq_some_iff
    (hdistinct : (space.mappings.entries.map MappingInfo.virtualAddress).Nodup) {page : Nat}
    {mapping : MappingInfo} : space.mapping page = some mapping ↔
      mapping ∈ space.mappings.entries ∧ mapping.virtualAddress = page := by
  refine ⟨mapping_some, fun ⟨hmem, haddress⟩ => ?_⟩
  cases hfound : space.mapping page with
  | none =>
    have := List.find?_eq_none.mp hfound mapping hmem
    exact absurd (decide_eq_true haddress) this
  | some other =>
    rcases mapping_some hfound with ⟨hother, haddress'⟩
    exact congrArg some (inj_on_of_nodup_map hdistinct hother hmem
      (haddress'.trans haddress.symm))

variable {bytes : List UInt8}

section Writes

variable {space : AddressSpace} {page page' : Nat} {mapping mapping' : MappingInfo}

/-- Two pages have two frames. -/
theorem frames_apart (hframes : space.mapped.Nodup) (hmapping : space.mapping page = some mapping)
    (hmapping' : space.mapping page' = some mapping') (hne : page ≠ page') :
    mapping.physicalFrame ≠ mapping'.physicalFrame := by
  intro hsame
  have heq : mapping = mapping' := inj_on_of_nodup_map hframes (mapping_some hmapping).1
    (mapping_some hmapping').1 hsame
  refine hne ?_
  rw [← (mapping_some hmapping).2, heq, (mapping_some hmapping').2]

/-- A write inside the page of a frame, as the process sees it. -/
theorem userByte_patch (hframes : e.space.mapped.Nodup)
    (hplaces : ∀ mapping ∈ e.space.mappings.entries, mapping.physicalFrame.toNat % 4096 = 0)
    (hmapping : e.space.mapping page = some mapping) (haligned : page % 4096 = 0) {offset : Nat}
    (hfits : offset + bytes.length ≤ 4096) (address : Nat) :
    (e.setHardware (patch e.hardware mapping.physicalFrame offset bytes)).userByte address =
      if page + offset ≤ address ∧ address < page + offset + bytes.length
      then bytes[address - (page + offset)]? else e.userByte address := by
  have hle := pageOf_le address
  have hlt := lt_pageOf address
  unfold Env.userByte
  change (e.space.mapping (pageOf address)).map _ = _
  by_cases hpage : pageOf address = page
  · rw [hpage, hmapping, Option.map_some, Option.map_some]
    change some (Store.write _ _ _ _) = _
    by_cases hin : page + offset ≤ address ∧ address < page + offset + bytes.length
    · rw [if_pos hin]
      have hindex : mapping.physicalFrame.toNat + (address - page) =
          mapping.physicalFrame.toNat + offset + (address - (page + offset)) := by omega
      rw [hindex, Store.write_self _ (by omega), List.getElem?_eq_getElem (by omega)]
    · rw [if_neg hin, Store.write_other _ (by omega)]
  · rw [if_neg fun hin => hpage (pageOf_eq haligned (by omega) (by omega))]
    cases hother : e.space.mapping (pageOf address) with
    | none => rfl
    | some mapping' =>
      rw [Option.map_some, Option.map_some]
      change some (Store.write _ _ _ _) = _
      rw [Store.write_other]
      -- The addresses are in two pages, of two frames.
      have hne := frames_apart hframes hother hmapping hpage
      by_contra hin
      have hhere : InPage mapping'.physicalFrame
          (mapping'.physicalFrame.toNat + (address - pageOf address)) := ⟨by omega, by omega⟩
      have hthere : InPage mapping.physicalFrame
          (mapping'.physicalFrame.toNat + (address - pageOf address)) := ⟨by omega, by omega⟩
      exact hne (inPage_unique (hplaces _ (mapping_some hother).1)
        (hplaces _ (mapping_some hmapping).1) hhere hthere)

end Writes

/-! ### Filling pages -/

/-- Bytes have been written from an address on, and nothing else has changed but
    memory. -/
structure Stored (start : Nat) (bytes : List UInt8) (e e' : Env) : Prop where
  frames : e'.frames = e.frames
  space : e'.space = e.space
  ready : e'.hardware.directMapReady = e.hardware.directMapReady
  view : ∀ address, e'.userByte address =
    if start ≤ address ∧ address < start + bytes.length then bytes[address - start]?
    else e.userByte address

section Stored

variable {start : Nat} {bytes bytes' : List UInt8} {e e₁ e₂ : Env}

theorem stored_nil (start : Nat) (e : Env) : Stored start [] e e :=
  ⟨rfl, rfl, rfl, fun address => by rw [if_neg (by rw [length_nil]; omega)]⟩

/-- Two writes, one right after the other. -/
theorem Stored.append (h : Stored start bytes e e₁) (h' : Stored (start + bytes.length) bytes' e₁ e₂) :
    Stored start (bytes ++ bytes') e e₂ := by
  refine ⟨h'.frames.trans h.frames, h'.space.trans h.space, h'.ready.trans h.ready,
    fun address => ?_⟩
  rw [h'.view, h.view, length_append]
  by_cases hsecond : start + bytes.length ≤ address ∧
      address < start + bytes.length + bytes'.length
  · rw [if_pos hsecond, if_pos (by omega), List.getElem?_append_right (by omega)]
    congr 1
    omega
  · rw [if_neg hsecond]
    by_cases hfirst : start ≤ address ∧ address < start + bytes.length
    · rw [if_pos hfirst, if_pos (by omega), List.getElem?_append_left (by omega)]
    · rw [if_neg hfirst, if_neg (by omega)]

/-- What has been copied is stored, where every page has a frame of its own. -/
theorem Copied.stored {target : Machine} (h : Copied target start bytes e e₁)
    (hframes : e.space.mapped.Nodup) (hplaces : ∀ mapping ∈ e.space.mappings.entries,
      mapping.physicalFrame.toNat % 4096 = 0) : Stored start bytes e e₁ := by
  induction h with
  | nil => exact stored_nil _ _
  | @cons address byte bytes e e' mapping hmapping hreach rest ih =>
    have hle := pageOf_le address
    have hlt := lt_pageOf address
    have haligned : pageOf address % 4096 = 0 := Nat.mul_mod_left _ _
    have hfits : address - pageOf address + [byte].length ≤ 4096 := by
      rw [length_singleton]
      omega
    have hfirst : Stored address [byte] e (e.setHardware
        (patch e.hardware mapping.physicalFrame (address - pageOf address) [byte])) := by
      refine ⟨rfl, rfl, rfl, fun other => ?_⟩
      have hview := userByte_patch hframes hplaces hmapping haligned hfits other
      rwa [Nat.add_sub_cancel' hle] at hview
    exact hfirst.append (ih hframes hplaces)

end Stored

section Load

variable {target : Machine} (hpaged : Paged e.space) (hlive : e.space.rootFrame ≠ none)

include hpaged hlive

theorem load_view (virtualAddress : Nat) (bytes : List UInt8) :
    wp (load target virtualAddress bytes) (fun _ => Stored virtualAddress bytes e)
      (fun error _ => Backed e.space virtualAddress bytes.length → error = .hardwareUnavailable)
      e :=
  wp_mono (load_copied virtualAddress bytes) (fun _ _ h => h.stored hpaged.frames hpaged.aligned)
    fun _ _ h => h.2 hlive

theorem loadWords_view (virtualAddress : Nat) (words : List UInt64) :
    wp (loadWords target virtualAddress words)
      (fun _ => Stored virtualAddress (wordBytes words) e)
      (fun error _ => Backed e.space virtualAddress (8 * words.length) →
        error = .hardwareUnavailable) e :=
  wp_mono (loadWords_copied virtualAddress words) (fun _ _ h => h.stored hpaged.frames hpaged.aligned)
    fun _ _ h => h.2 hlive

end Load

/-! ### Runs -/

section World

variable {info : BootInfo} {lost : List UInt64} {w : World} {target : Machine} {index index' : Nat}
  {space space' : AddressSpace} {mapping mapping' : MappingInfo}

/-- A frame is one page of one space. -/
theorem Accounted.mapped_inj (h : Accounted info lost w) (hspace : w.spaces[index]? = some space)
    (hspace' : w.spaces[index']? = some space') (hmem : mapping ∈ space.mappings.entries)
    (hmem' : mapping' ∈ space'.mappings.entries)
    (hsame : mapping.physicalFrame = mapping'.physicalFrame) : index = index' ∧ mapping = mapping' := by
  have hgone := h.gone space (mem_of_getElem? hspace)
  have hgone' := h.gone space' (mem_of_getElem? hspace')
  by_cases hindex : index' = index
  · subst hindex
    cases hspace.symm.trans hspace'
    exact ⟨rfl, inj_on_of_nodup_map ((h.focus hspace).frames_nodup hgone) hmem hmem' hsame⟩
  · -- The frame would be with this space and with another.
    have hnodup := nodup_append.mp (nodup_append.mp (h.focus hspace).nodup).2.1
    have hother : space' ∈ w.spaces.eraseIdx index :=
      mem_eraseIdx_iff_getElem?.mpr ⟨index', hindex, hspace'⟩
    refine absurd hsame.symm (hnodup.2.2 _ (mem_flatMap.mpr ⟨space', hother, ?_⟩) _ ?_)
    · exact hgone'.sublist.subset (mem_map_of_mem hmem')
    · exact hgone.sublist.subset (mem_map_of_mem hmem)

/-- Some bytes are there as the process of a space sees them, and every other byte
    of a mapped frame is the one it was. -/
structure Exact (w : World) (index start : Nat) (bytes : List UInt8) (e : Env) : Prop where
  stored : ∀ i < bytes.length, e.userByte (start + i) = bytes[i]?
  kept : ∀ index' space', w.spaces[index']? = some space' →
    ∀ mapping ∈ space'.mappings.entries, ∀ offset < pageSize,
      ¬ (index' = index ∧ start ≤ mapping.virtualAddress + offset ∧
        mapping.virtualAddress + offset < start + bytes.length) →
      e.hardware.memory (mapping.physicalFrame.toNat + offset) =
        w.hardware.memory (mapping.physicalFrame.toNat + offset)

theorem Copied.exact {start : Nat} {e : Env} (h : Accounted info lost w)
    (hspace : w.spaces[index]? = some space) (hcopied : Copied target start bytes (w.env space) e) :
    Exact w index start bytes e := by
  have haligned {index' : Nat} {space' : AddressSpace} (hspace' : w.spaces[index']? = some space') :=
    (h.focus hspace').aligned (h.gone space' (mem_of_getElem? hspace'))
  have hgone := h.gone space (mem_of_getElem? hspace)
  refine ⟨fun i hi => ?_, fun index' space' hspace' mapping hmem offset hoffset hout => ?_⟩
  · rw [(hcopied.stored ((h.focus hspace).frames_nodup hgone) (haligned hspace)).view,
      if_pos (by omega), Nat.add_sub_cancel_left]
  · refine hcopied.unwritten fun i hi other hother hplace => hout ?_
    have hle := pageOf_le (start + i)
    have hlt := lt_pageOf (start + i)
    have hsize : pageSize = 4096 := rfl
    have hhere : InPage mapping.physicalFrame (mapping.physicalFrame.toNat + offset) :=
      ⟨by omega, by omega⟩
    have hframe := inPage_unique (haligned hspace' mapping hmem)
      (haligned hspace other (mapping_some hother).1) hhere ⟨by omega, by omega⟩
    rcases h.mapped_inj hspace' hspace hmem (mapping_some hother).1 hframe with ⟨hindex, rfl⟩
    have hpage := (mapping_some hother).2
    exact ⟨hindex, by omega, by omega⟩

end World

/-- Along every run in which each `destroy` finds room on the returned list for
    all pages of the space or for none, a load that succeeds in any space is
    exact, and so is one of words. -/
theorem load_exact (target : Machine) (info : BootInfo) (s : Memory.State) (hardware : Hardware) :
    ∃ s', (∀ fuel, 2 ^ 64 ≤ fuel → init fuel info s = some (summary info s', s')) ∧
      ∀ calls, Obeys (step target) PagesFit (World.start s' hardware) calls →
        ∀ w, w = run (step target) (World.start s' hardware) calls →
          ∀ index space, w.spaces[index]? = some space →
            (∀ start bytes e, load target start bytes (w.env space) = (.ok (), e) →
              Exact w index start bytes e) ∧
            (∀ start words e, loadWords target start words (w.env space) = (.ok (), e) →
              Exact w index start (wordBytes words) e) := by
  rcases init_carved info s with ⟨s', hcarved, hinit⟩
  refine ⟨s', hinit, fun calls hobeys w hw index space hspace => ?_⟩
  rcases run_invariant (step target) PagesFit (fun w => ∃ lost, Accounted info.effective lost w)
    (fun w call hw hok => step_accounts hw hok) calls _ ⟨[], accounted_start hcarved hardware⟩ hobeys
    with ⟨lost, haccounted⟩
  rw [← hw] at haccounted
  exact ⟨fun start bytes e hload => (wp_ok hload (load_copied start bytes)).exact haccounted hspace,
    fun start words e hload => (wp_ok hload (loadWords_copied start words)).exact haccounted hspace⟩

/-- A space that was refused its destruction half-way maps a page more. -/
def doubling : List Call :=
  [.new .init ⟨0⟩] ++ mapPages 0 2 ++ filling 1 ++
    [.on 0 .destroy, .on 0 (.mapAnonymous 0x3ff000 .userRw)]

set_option maxRecDepth 10000 in
/-- The page gets the frame of the next one. A load that runs into the next page
    overwrites what it stored first. -/
theorem load_overwritten : after .x86_64 doubling (fun w => w.spaces[0]?.map fun space =>
    let r := load .x86_64 0x3ff000 (List.replicate 4096 1 ++ [2]) (w.env space)
    (decide (r.1.isOk = true), r.2.userByte 0x3ff000)) = some (some (true, some 2)) := by
  decide +kernel

end Space

end Norx
