import Norx.Dynamic.Parse
import Norx.Elf.Plan
import Norx.Lib.Fallible

/-!
# What the Dynamic Section Can Say

An image can put any numbers into its dynamic section. Most of them are addresses,
and go through the plan of the segments: what `file_offset` returns is in the part
of the file that belongs to one segment, and the plan has been checked to have that
in the image. The sums the parser computes without a check are of offsets in such a
part, or of an address and an offset for which a larger sum has been checked.

## Main definitions

* `entriesOf`: The tags of the dynamic section.

## Theorems

* `gnuChain_ends`: The walk along a chain ends.
* `parse_ends`, `dynamic_sound`: The parser does not panic, and what its plan says
  is so.
-/

namespace Norx

namespace Dynamic

open List

open Checked (Ends)
open Elf (LoadPlan SegmentPlan)

/-! ### The plan of the segments -/

/-- The file bytes of every segment are in the image. -/
structure PlanOk (image : List UInt8) (plan : LoadPlan) : Prop where
  inFile : ∀ segment ∈ plan.segments.entries, segment.fileOffset + segment.fileSize ≤ image.length
  fits : ∀ segment ∈ plan.segments.entries, segment.fileOffset + segment.fileSize < 2 ^ 64

variable {machine : Machine} {plan : LoadPlan} {image : List UInt8}

theorem planOk_of_parse {target : Machine} {loadBias : Nat}
    (h : Elf.parse target image machine loadBias = .ok plan) : PlanOk image plan := by
  rcases (Elf.parse_ends target image machine loadBias).of_ok h with ⟨hplanned, -, hfits⟩
  exact ⟨fun segment hsegment => (hplanned.each segment hsegment).inFile, hfits⟩

/-- The bytes are in the part of the file that belongs to one segment. -/
def InSegment (plan : LoadPlan) (offset size : Nat) : Prop :=
  ∃ segment ∈ plan.segments.entries,
    segment.fileOffset ≤ offset ∧ offset + size ≤ segment.fileOffset + segment.fileSize

variable {size offset : Nat} {address : Nat}

theorem fileOffset_in_segment (h : plan.fileOffset address size = some offset) :
    InSegment plan offset size := by
  rcases Option.bind_eq_some_iff.mp h with ⟨end_, hend, h⟩
  rcases exists_of_findSome?_eq_some h with ⟨segment, hsegment, h⟩
  rcases Option.bind_eq_some_iff.mp h with ⟨fileEnd, hfileEnd, h⟩
  rcases Usize.checkedAdd_eq_some.mp hend with ⟨rfl, -⟩
  rcases Usize.checkedAdd_eq_some.mp hfileEnd with ⟨rfl, -⟩
  split at h
  · exact nomatch h
  · rcases Usize.checkedAdd_eq_some.mp h with ⟨rfl, -⟩
    exact ⟨segment, hsegment, by omega, by omega⟩

/-- The bytes are in one segment. -/
def InMemory (plan : LoadPlan) (address size : Nat) : Prop :=
  ∃ segment ∈ plan.segments.entries,
    segment.virtualStart ≤ address ∧ address + size ≤ segment.virtualEnd

theorem containsAddress_in_memory (h : plan.containsAddress address size = true) :
    InMemory plan address size := by
  unfold LoadPlan.containsAddress at h
  split at h
  · exact nomatch h
  · rename_i end_ hend
    rcases Usize.checkedAdd_eq_some.mp hend with ⟨rfl, -⟩
    rcases any_eq_true.mp h with ⟨segment, hsegment, hin⟩
    exact ⟨segment, hsegment, of_decide_eq_true hin⟩

section Segments

variable {image : List UInt8} {plan : LoadPlan} (hplan : PlanOk image plan)

include hplan

theorem InSegment.bounds (h : InSegment plan offset size) :
    offset + size ≤ image.length ∧ offset + size < 2 ^ 64 := by
  rcases h with ⟨segment, hsegment, -, hle⟩
  exact ⟨hle.trans (hplan.inFile segment hsegment), hle.trans_lt (hplan.fits segment hsegment)⟩

end Segments

/-! ### Reading fields -/

variable {Q : Nat → Prop} {bytes : List UInt8}

section Ranges

variable {start end_ : Nat} {part : List UInt8} (h : getRange bytes start end_ = some part)

include h

theorem getRange_some :
    start ≤ end_ ∧ end_ ≤ bytes.length ∧ part = (bytes.drop start).take (end_ - start) := by
  unfold getRange at h
  split at h
  · rename_i hbounds
    exact ⟨hbounds.1, hbounds.2, (Option.some.inj h).symm⟩
  · exact nomatch h

theorem length_getRange : part.length = end_ - start := by
  rcases getRange_some h with ⟨-, hend, rfl⟩
  rw [length_take, length_drop]
  omega

end Ranges

@[simp] theorem ends_readLe {n : Nat} :
    Ends (readLe n bytes offset) Q ↔
      offset + n < 2 ^ 64 ∧ (offset + n ≤ bytes.length → Q (Elf.word bytes offset n)) := by
  simp [readLe, getRange, Elf.word]

@[simp] theorem ends_readU32 :
    Ends (readU32 bytes offset) Q ↔
      offset + 4 < 2 ^ 64 ∧ (offset + 4 ≤ bytes.length → Q (Elf.word bytes offset 4)) := ends_readLe

@[simp] theorem ends_readU64 :
    Ends (readU64 bytes offset) Q ↔
      offset + 8 < 2 ^ 64 ∧ (offset + 8 ≤ bytes.length → Q (Elf.word bytes offset 8)) := ends_readLe

variable {e : Error}

@[simp] theorem ends_tryFrom {bits : Nat} {value : Nat} :
    Ends (tryFrom bits e value) Q ↔ (value < 2 ^ bits → Q value) := by
  simp [tryFrom]

@[simp] theorem ends_usizeFrom {value : Nat} :
    Ends (usizeFrom e value) Q ↔ (value < 2 ^ 64 → Q value) := ends_tryFrom

@[simp] theorem ends_rebase :
    Ends (rebase plan e address) Q ↔
      (address < 2 ^ 64 → plan.base + address < 2 ^ 64 → Q (plan.base + address)) := by
  simp [rebase]

/-! ### Tables and strings -/

/-- A table is in the image, and in the part of it that belongs to one segment. -/
structure TableOk (image : List UInt8) (plan : LoadPlan) (table : Table) : Prop where
  inImage : table.fileOffset + table.size ≤ image.length
  fits : table.fileOffset + table.size < 2 ^ 64
  inSegment : InSegment plan table.fileOffset table.size

/-- At the offset of a table a string starts that ends in it with a zero byte. -/
def NamesString (image : List UInt8) (table : Table) (offset : Nat) : Prop :=
  ∃ length, offset + length < table.size ∧
    (image.drop (table.fileOffset + offset))[length]? = some 0

theorem stringAt_ends {table : Table} (hfits : table.fileOffset + table.size < 2 ^ 64) :
    Ends (stringAt image table offset) fun _ => NamesString image table offset := by
  simp only [stringAt, ends_bind, ends_reject, ends_require, Usize.checkedAdd_eq_some, and_imp,
    forall_eq', ends_add, ends_slice]
  refine fun hoffset _ => ⟨hfits, fun bytes hbytes length hlength => ?_⟩
  rcases getRange_some hbytes with ⟨-, -, rfl⟩
  rcases List.findIdx?_eq_some_iff_getElem.mp hlength with ⟨hlt, hzero, -⟩
  have hin := List.getElem?_eq_getElem hlt
  refine ⟨⟨Nat.zero_le _, hlt.le⟩, length, ?_, ?_⟩
  · rw [length_take] at hlt
    omega
  · rw [beq_iff_eq.mp hzero, List.getElem?_take_of_lt (by rw [length_take] at hlt; omega)] at hin
    exact hin

section Tables

variable {image : List UInt8} {plan : LoadPlan} (hplan : PlanOk image plan)

include hplan

theorem table_ends (address size entrySize : Nat) :
    Ends (table image plan address size entrySize) fun t =>
      TableOk image plan t ∧ t.size = size := by
  simp [table]
  intro _ _ _ _ _ offset hoffset _ _ _
  have hsegment := fileOffset_in_segment hoffset
  have hbounds := hsegment.bounds hplan
  exact ⟨hbounds.1, hbounds.2, hsegment⟩

end Tables

variable {image : List UInt8} {plan : LoadPlan}

theorem fileSliceAt_ends (address size : Nat) :
    Ends (fileSliceAt image plan address size) fun bytes => bytes.length = size := by
  simp [fileSliceAt]
  intro _ _ offset _ _ bytes hbytes
  rw [length_getRange hbytes, Nat.add_sub_cancel_left]

@[simp] theorem ends_fileSliceAt {Q : List UInt8 → Prop} :
    Ends (fileSliceAt image plan address size) Q ↔
      ∀ bytes, fileSliceAt image plan address size = .ok bytes → Q bytes :=
  ends_of_safe (ends_mono (fileSliceAt_ends address size) fun _ _ => trivial)

/-! ### Symbols -/

theorem sysvSymbolCount_ends (address : Nat) :
    Ends (sysvSymbolCount image plan address) fun _ => True := by
  simp [sysvSymbolCount]

/-- Each turn gets further from the first symbol of the table, and the check of the turn
    bounds how far. -/
theorem gnuChain_ends (chainsAddress symbolOffset : Nat) {fuel index : Nat} (symbolCount : Nat)
    (hindex : symbolOffset ≤ index) (hpos : 0 < fuel)
    (hfuel : maxSymbols < fuel + (index - symbolOffset)) :
    Ends (gnuChain image plan chainsAddress symbolOffset fuel index symbolCount)
      fun _ => True := by
  induction fuel generalizing index symbolCount with
  | zero => exact absurd hpos (Nat.lt_irrefl 0)
  | succ fuel ih =>
    simp [gnuChain, hindex]
    intro hnear _ _ chain _ _ _ _
    exact ih _ (by omega) (by omega) (by omega)

theorem gnuSymbolCount_ends (address : Nat) :
    Ends (gnuSymbolCount image plan address) fun _ => True := by
  simp [gnuSymbolCount, Option.bind_eq_some_iff]
  intros
  refine ends_foldlM (fun _ _ => True) _ ?_ _ [] 0 (fun _ h => h) trivial
  intro done bucket symbolCount hbucket _
  have hlt := mem_range.mp hbucket
  simp [gnuBucket]
  refine ⟨by omega, by omega, by omega, fun bytes _ _ _ hindex => ?_⟩
  exact gnuChain_ends _ _ _ hindex (by decide) (by omega)

theorem readSymbolCount_ends (tags : Tags) :
    Ends (readSymbolCount image plan tags) fun _ => True := by
  unfold readSymbolCount
  split
  · exact sysvSymbolCount_ends _
  · exact gnuSymbolCount_ends _
  · exact ends_fail _

/-! ### Relocations -/

/-- A relocation that was accepted. -/
structure RelocationOk (plan : LoadPlan) (machine : Machine) (symbolCount : Nat)
    (relocation : Relocation) : Prop where
  target : InMemory plan relocation.address 8
  supported : supportedRelocation machine relocation.kind = true
  symbol : relocation.symbol = 0 ∨ relocation.symbol < symbolCount

/-- The relocations read so far were accepted. -/
structure RelocationsOk (plan : LoadPlan) (machine : Machine) (symbolCount : Nat)
    (relocations : Relocations) : Prop where
  few : relocations.count ≤ maxRelocations
  each : ∀ i < relocations.count,
    RelocationOk plan machine symbolCount (relocations.table.get i)

theorem readRelocation_ends (machine : Machine) (symbolCount : Nat) (entry : List UInt8) :
    Ends (readRelocation plan machine symbolCount entry)
      (RelocationOk plan machine symbolCount) := by
  simp [readRelocation, readI64]
  intro _ _ _ htarget _ _ hsymbol _ hkind _
  refine ⟨containsAddress_in_memory htarget, hkind, ?_⟩
  change Elf.word entry 8 8 / 2 ^ 32 = 0 ∨ Elf.word entry 8 8 / 2 ^ 32 < symbolCount
  omega

variable {symbolCount : Nat} {relocations : Relocations}

theorem RelocationsOk.push (h : RelocationsOk plan machine symbolCount relocations)
    {relocation : Relocation} (hrelocation : RelocationOk plan machine symbolCount relocation)
    (hroom : relocations.count ≠ maxRelocations) :
    Ends (relocations.push relocation) (RelocationsOk plan machine symbolCount) := by
  have hlt : relocations.count < maxRelocations := Nat.lt_of_le_of_ne h.few hroom
  rw [Relocations.push, if_pos hlt, ends_pure]
  refine ⟨hlt, fun i hi => ?_⟩
  by_cases heq : i = relocations.count
  · rw [heq, Slots.get_set_self _ _ hlt]
    exact hrelocation
  · rw [Slots.get_set_other _ _ heq]
    exact h.each i (Nat.lt_of_le_of_ne (Nat.le_of_lt_succ hi) heq)

theorem appendRelocations_ends (h : RelocationsOk plan machine symbolCount relocations)
    (address size entrySize : Nat) :
    Ends (appendRelocations image plan machine symbolCount relocations address size
      entrySize) (RelocationsOk plan machine symbolCount) := by
  simp only [appendRelocations, ends_bind, ends_usizeFrom, ends_reject]
  intro _ hsize _
  refine ends_mono (fileSliceAt_ends address size) fun table htable => ?_
  refine ends_foldlM (fun _ => RelocationsOk plan machine symbolCount) _ ?_ _ [] _
    (fun _ hi => hi) h
  intro done index relocations hindex h
  have hlt := mem_range.mp hindex
  have hend : (index + 1) * relaSize ≤ size :=
    (Nat.mul_le_mul_right _ hlt).trans (Nat.div_mul_le_self _ _)
  have hcount : size / relaSize ≤ size := Nat.div_le_self _ _
  simp only [appendRelocation, ends_bind, ends_reject, ends_mul, ends_add, ends_slice]
  intro hroom
  have hle : index * relaSize ≤ (index + 1) * relaSize := Nat.mul_le_mul_right _ (Nat.le_succ _)
  refine ⟨by omega, by omega, by omega, ⟨hle, htable ▸ hend⟩, ?_⟩
  exact ends_mono (readRelocation_ends machine symbolCount _) fun relocation hrelocation =>
    h.push hrelocation hroom

theorem readRela_ends (tags : Tags) (h : RelocationsOk plan machine symbolCount relocations) :
    Ends (readRela image plan machine symbolCount tags relocations)
      (RelocationsOk plan machine symbolCount) := by
  unfold readRela
  split
  · simp [appendRelocations_ends h]
  · simp [h]

theorem readPlt_ends (tags : Tags) (h : RelocationsOk plan machine symbolCount relocations) :
    Ends (readPlt image plan machine symbolCount tags relocations)
      (RelocationsOk plan machine symbolCount) := by
  unfold readPlt
  split
  · simp [appendRelocations_ends h]
  · simp [h]

/-! ### Tags -/

/-- The tags of the dynamic section with their values, up to the end of it. -/
def entriesAt (image : List UInt8) (offset : Nat) (indices : List Nat) : List (Nat × Nat) :=
  (indices.map fun index => (Elf.word image (offset + index * 16) 8,
    Elf.word image (offset + index * 16 + 8) 8)).takeWhile fun entry => decide (entry.1 ≠ dtNull)

def entriesOf (image : List UInt8) (table : Table) : List (Nat × Nat) :=
  entriesAt image table.fileOffset (List.range (table.size / 16))

/-- The values of one tag. -/
def values (tag : Nat) (entries : List (Nat × Nat)) : List Nat :=
  entries.filterMap fun entry => if entry.1 = tag then some entry.2 else none

theorem values_append_self (tag value : Nat) (entries : List (Nat × Nat)) :
    values tag (entries ++ [(tag, value)]) = values tag entries ++ [value] := by
  unfold values
  simp

theorem values_append_other {tag other : Nat} (h : other ≠ tag) (value : Nat)
    (entries : List (Nat × Nat)) : values tag (entries ++ [(other, value)]) = values tag entries := by
  unfold values
  simp [h]

/-- What has been taken up of these entries. -/
structure TagsOk (entries : List (Nat × Nat)) (tags : Tags) : Prop where
  few : tags.neededCount ≤ maxNeeded
  needed : tags.needed.leading tags.neededCount = (values dtNeeded entries).map some
  soname : tags.sonameOffset = (values dtSoname entries).getLast?

theorem tagsOk_new : TagsOk [] .new := ⟨Nat.zero_le _, rfl, rfl⟩

variable {entries : List (Nat × Nat)} {tags : Tags}

theorem TagsOk.other {tags' : Tags} (h : TagsOk entries tags) {tag : Nat} (hneeded : tag ≠ dtNeeded)
    (hsoname : tag ≠ dtSoname) (value : Nat)
    (heq : tags'.needed = tags.needed ∧ tags'.neededCount = tags.neededCount ∧ tags'.sonameOffset =
      tags.sonameOffset) : TagsOk (entries ++ [(tag, value)]) tags' := by
  rcases heq with ⟨h1, h2, h3⟩
  refine ⟨h2 ▸ h.few, ?_, ?_⟩
  · rw [h1, h2, values_append_other hneeded, h.needed]
  · rw [h3, values_append_other hsoname, h.soname]

theorem pushNeeded_ends (h : TagsOk entries tags) (value : Nat) :
    Ends (tags.pushNeeded value) (TagsOk (entries ++ [(dtNeeded, value)])) := by
  rw [Tags.pushNeeded, ends_bind, ends_reject]
  intro hroom
  have hlt : tags.neededCount < maxNeeded := Nat.lt_of_le_of_ne h.few hroom
  rw [if_pos hlt, ends_pure]
  refine ⟨hlt, ?_, ?_⟩
  · rw [Slots.leading_succ _ hlt, Slots.get_set_self _ _ hlt, Slots.leading_set _ _ (Nat.le_refl _),
      h.needed, values_append_self, map_append]
    rfl
  · rw [values_append_other (by decide)]
    exact h.soname

theorem record_ends (h : TagsOk entries tags) (tag value : Nat) :
    Ends (tags.record tag value) (TagsOk (entries ++ [(tag, value)])) := by
  by_cases hneeded : tag = dtNeeded
  · rw [Tags.record, if_pos hneeded, hneeded]
    exact pushNeeded_ends h value
  · by_cases hsoname : tag = dtSoname
    · subst hsoname
      refine ⟨h.few, ?_, ?_⟩
      · rw [values_append_other hneeded]
        exact h.needed
      · rw [values_append_self, List.getLast?_concat]
    · -- The other tags have a field of their own, or none.
      simp [Tags.record, hneeded, hsoname, h.other hneeded hsoname value]

theorem readTags_ends (hfits : offset + size < 2 ^ 64) (indices : List Nat)
    (hindices : ∀ i ∈ indices, i < size / 16) (h : TagsOk entries tags) :
    Ends (readTags image offset indices tags) fun result =>
      result.1 = true → TagsOk (entries ++ entriesAt image offset indices) result.2 := by
  induction indices generalizing entries tags with
  | nil => exact nofun
  | cons index rest ih =>
    have hindex := hindices index mem_cons_self
    simp only [readTags, ends_bind, ends_mul, ends_add, ends_readU64, ends_ite, ends_pure]
    refine ⟨by omega, by omega, by omega, fun _ => ⟨by omega, by omega, fun _ => ?_⟩⟩
    have hentries : entriesAt image offset (index :: rest) =
        if decide (Elf.word image (offset + index * 16) 8 ≠ dtNull) = true then
          (Elf.word image (offset + index * 16) 8, Elf.word image (offset + index * 16 + 8) 8) ::
            entriesAt image offset rest
        else [] := takeWhile_cons
    refine ⟨fun hnull => ?_, fun hnull => ?_⟩
    · rw [hentries, hnull, if_neg (by decide), append_nil]
      exact fun _ => h
    · rw [hentries, if_pos (decide_eq_true hnull)]
      refine ends_mono (record_ends h _ _) fun tags' htags => ?_
      have hrest := ih (fun i hi => hindices i (mem_cons_of_mem _ hi)) htags
      rwa [append_assoc, singleton_append] at hrest

/-! ### The parser -/

theorem readStrings_ends (hplan : PlanOk image plan) (tags : Tags) :
    Ends (readStrings image plan tags) fun strings =>
      ∀ t, strings = some t → TableOk image plan t := by
  unfold readStrings
  split
  · refine ends_then (table_ends hplan _ _ _) fun strings h => ?_
    simpa using h.1
  · simp
  · simp

theorem readSymbols_ends (hplan : PlanOk image plan) (tags : Tags) :
    Ends (readSymbols image plan tags) fun result =>
      ∀ t, result.1 = some t → TableOk image plan t ∧ t.size = result.2 * symbolSize := by
  unfold readSymbols
  split
  · simp only [ends_bind, ends_require, ends_reject, Usize.checkedMul_eq_some, and_imp, forall_eq',
      ends_pure, Option.some.injEq]
    intro entrySize _ _
    refine ends_mono (readSymbolCount_ends tags) fun count _ _ => ?_
    exact table_ends hplan _ _ _
  · rintro _ ⟨⟩

/-- The offset names a string of the table, if there is a table. -/
def Names (image : List UInt8) (strings : Option Table) (offset : Nat) : Prop :=
  ∃ t, strings = some t ∧ NamesString image t offset

section Strings

variable {strings : Option Table} (hstrings : ∀ t, strings = some t → TableOk image plan t)

include hstrings

theorem checkString_ends (offset : Nat) :
    Ends (checkString image strings offset) fun _ => Names image strings offset := by
  simp only [checkString, ends_bind, ends_require, ends_usizeFrom, ends_pure]
  intro t ht _
  exact ends_mono (stringAt_ends (hstrings t ht).fits) fun _ h => ⟨t, ht, h⟩

theorem checkStrings_ends (htags : TagsOk entries tags) :
    Ends (checkStrings image strings tags) fun _ =>
      (∀ offset ∈ values dtNeeded entries, Names image strings offset) ∧
        ∀ offset, tags.sonameOffset = some offset → Names image strings offset := by
  rw [checkStrings, ends_bind, ends_reject]
  intro _
  have hneeded : ((List.ofFn tags.needed).take tags.neededCount).filterMap id =
      values dtNeeded entries := by
    change (tags.needed.leading tags.neededCount).filterMap id = _
    rw [htags.needed, filterMap_map]
    exact filterMap_some
  rw [hneeded]
  refine ends_then (ends_forM (checkString_ends hstrings) _)
    fun _ hall => ?_
  split
  · rename_i offset hoffset
    refine ends_mono (checkString_ends hstrings offset) fun _ h => ⟨hall, fun o ho => ?_⟩
    rw [← Option.some.inj (hoffset.symm.trans ho)]
    exact h
  · rename_i hnone
    exact ⟨hall, fun o ho => nomatch hnone.symm.trans ho⟩

end Strings

/-- What is known of a plan. -/
structure DynamicOk (image : List UInt8) (plan : LoadPlan) (machine : Machine)
    (dynamic : DynamicPlan) : Prop where
  tables : ∀ t, dynamic.dynamic = some t ∨ dynamic.strings = some t ∨ dynamic.symbols = some t →
    TableOk image plan t
  symbols : ∀ t, dynamic.symbols = some t → t.size = dynamic.symbolCount * symbolSize
  fewNeeded : dynamic.neededCount ≤ maxNeeded
  neededTags : ∀ t, dynamic.dynamic = some t →
    dynamic.needed.leading dynamic.neededCount = values dtNeeded (entriesOf image t)
  sonameTag : ∀ t, dynamic.dynamic = some t →
    dynamic.sonameOffset = (values dtSoname (entriesOf image t)).getLast?
  neededNames : ∀ offset ∈ dynamic.needed.leading dynamic.neededCount,
    Names image dynamic.strings offset
  sonameNames : ∀ offset, dynamic.sonameOffset = some offset → Names image dynamic.strings offset
  relocations : RelocationsOk plan machine dynamic.symbolCount
    { table := dynamic.relocations, count := dynamic.relocationCount }

theorem relocationsOk_empty (machine : Machine) (symbolCount : Nat) :
    RelocationsOk plan machine symbolCount .empty :=
  ⟨Nat.zero_le _, fun _ hi => absurd hi (Nat.not_lt_zero _)⟩

theorem readDynamic_ends (hplan : PlanOk image plan) (header : ProgramHeader) :
    Ends (readDynamic plan header) (TableOk image plan) := by
  simp only [readDynamic, ends_bind, ends_usizeFrom, ends_reject, ends_rebase, ends_require,
    ends_pure]
  intro _ _ _ _ offset hoffset
  have hsegment := fileOffset_in_segment hoffset
  have hbounds := hsegment.bounds hplan
  exact ⟨hbounds.1, hbounds.2, hsegment⟩

theorem leading_getD (tags : Tags) (h : TagsOk entries tags) :
    (tags.needed.map (·.getD 0)).leading tags.neededCount = values dtNeeded entries := by
  have hmap : (tags.needed.map (·.getD 0)).leading tags.neededCount =
      (tags.needed.leading tags.neededCount).map (·.getD 0) := by
    unfold Slots.leading
    rw [map_take]
    rfl
  rw [hmap, h.needed, map_map]
  exact map_id _

theorem parseDynamic_ends (hplan : PlanOk image plan) (machine : Machine) (header : ProgramHeader)
    (tls : Option TlsPlan) :
    Ends (parseDynamic image plan machine header tls) (DynamicOk image plan machine) := by
  refine ends_then (readDynamic_ends hplan header) fun table htable => ?_
  refine ends_then (readTags_ends htable.fits (List.range (table.size / 16))
    (fun _ hi => mem_range.mp hi) tagsOk_new) fun result htags => ?_
  rw [ends_bind, ends_reject]
  intro hterminated
  have htags : TagsOk (entriesOf image table) result.2 :=
    htags (Bool.eq_true_of_not_eq_false hterminated)
  refine ends_then (readStrings_ends hplan result.2) fun strings hstrings => ?_
  refine ends_then (readSymbols_ends hplan result.2) fun symbols hsymbols => ?_
  refine ends_then (checkStrings_ends hstrings htags) fun _ hnames => ?_
  rw [ends_bind, ends_reject]
  intro _
  refine ends_then (readRela_ends result.2 (relocationsOk_empty machine symbols.2))
    fun rela hrela => ?_
  refine ends_then (readPlt_ends result.2 hrela) fun relocations hrelocations => ?_
  have hneeded := leading_getD result.2 htags
  refine ⟨?_, fun t ht => (hsymbols t ht).2, htags.few, ?_, ?_, ?_, hnames.2,
    hrelocations⟩
  · rintro t (ht | ht | ht)
    · rw [← Option.some.inj ht]
      exact htable
    · exact hstrings t ht
    · exact (hsymbols t ht).1
  · intro t ht
    rw [← Option.some.inj ht]
    exact hneeded
  · intro t ht
    rw [← Option.some.inj ht]
    exact htags.soname
  · intro offset hoffset
    rw [hneeded] at hoffset
    exact hnames.1 offset hoffset

theorem static_ok (machine : Machine) (tls : Option TlsPlan) :
    DynamicOk image plan machine (.static machine plan.base tls) := by
  refine ⟨?_, nofun, Nat.zero_le _, nofun, nofun, fun _ h => (nomatch h), nofun,
    relocationsOk_empty machine 0⟩
  rintro t (ht | ht | ht) <;> exact nomatch ht

theorem parseTls_ends (header : ProgramHeader) :
    Ends (parseTls image plan header) fun _ => True := by
  simp [parseTls]

theorem readProgramHeader_ends (hfits : offset + programHeaderSize < 2 ^ 64) :
    Ends (readProgramHeader image offset) fun _ => True := by
  unfold programHeaderSize at hfits
  simp [readProgramHeader]
  omega

theorem readHeader_ends {programHeaderOffset count index : Nat}
    (hfits : programHeaderOffset + count * programHeaderSize < 2 ^ 64) (hindex : index < count)
    (headers : Headers) :
    Ends (readHeader image plan programHeaderOffset headers index) fun _ => True := by
  have hend : (index + 1) * programHeaderSize ≤ count * programHeaderSize :=
    Nat.mul_le_mul_right _ hindex
  rw [Nat.add_mul] at hend
  rw [readHeader, ends_bind, ends_mul, ends_bind, ends_add]
  refine ⟨by omega, by omega, ends_then (readProgramHeader_ends (by omega)) fun header _ => ?_⟩
  simp [parseTls_ends header]

theorem readFileHeader_ends (image : List UInt8) (machine : Machine) :
    Ends (readFileHeader image machine) fun header =>
      header.1 + header.2 * programHeaderSize < 2 ^ 64 := by
  simp [readFileHeader, readU16]
  intros
  assumption

theorem parse_ends (hplan : PlanOk image plan) (machine : Machine) :
    Ends (parse image plan machine) (DynamicOk image plan machine) := by
  refine ends_then (readFileHeader_ends image machine) fun header hfits => ?_
  have hloop : Ends ((List.range header.2).foldlM (readHeader image plan header.1)
      { dynamic := none, tls := none }) fun _ => True :=
    ends_foldlM (fun _ _ => True) (List.range header.2)
      (fun _ index headers hindex _ => readHeader_ends hfits (mem_range.mp hindex) headers)
      (List.range header.2) [] _ (fun _ h => h) trivial
  refine ends_then hloop fun headers _ => ?_
  split
  · exact static_ok machine headers.tls
  · exact parseDynamic_ends hplan machine _ headers.tls

/-! ### Reading the plan -/

/-- A name that was checked is found again. -/
theorem stringAt_ok {table : Table} (htable : TableOk image plan table)
    (h : NamesString image table offset) : ∃ name, stringAt image table offset = .ok name := by
  rcases h with ⟨length, hlt, hzero⟩
  have hfits := htable.fits
  have himage := htable.inImage
  have hstart : Usize.checkedAdd table.fileOffset offset = some (table.fileOffset + offset) :=
    if_pos (by omega)
  have hend : (Checked.add table.fileOffset table.size : Checked Error Nat) =
      .ok (table.fileOffset + table.size) := if_pos hfits
  have hrange : getRange image (table.fileOffset + offset) (table.fileOffset + table.size) =
      some ((image.drop (table.fileOffset + offset)).take (table.size - offset)) := by
    rw [getRange, if_pos ⟨by omega, himage⟩, Nat.add_sub_add_left]
  generalize hbytes : (image.drop (table.fileOffset + offset)).take (table.size - offset) = bytes
    at hrange
  have hin : bytes[length]? = some 0 := by
    rw [← hbytes, List.getElem?_take_of_lt (by omega)]
    exact hzero
  have hfind : (bytes.findIdx? (· == 0)).isSome = true := by
    rw [List.findIdx?_isSome, any_eq_true]
    exact ⟨0, mem_of_getElem? hin, rfl⟩
  rcases Option.isSome_iff_exists.mp hfind with ⟨stop, hstop⟩
  rcases List.findIdx?_eq_some_iff_getElem.mp hstop with ⟨hstoplt, -, -⟩
  refine ⟨(bytes.drop 0).take (stop - 0), ?_⟩
  rw [stringAt, Checked.reject, if_neg (by omega), hstart]
  change (do
    let tableEnd ← Checked.add table.fileOffset table.size
    let bytes ← Checked.require .truncated (getRange image (table.fileOffset + offset) tableEnd)
    let end_ ← Checked.require .invalidString (bytes.findIdx? (· == 0))
    Checked.slice bytes 0 end_ : Checked Error (List UInt8)) = _
  rw [hend, except_ok_bind, hrange]
  change (Checked.require Error.invalidString (bytes.findIdx? (· == 0)) >>= Checked.slice bytes 0) = _
  rw [hstop]
  exact if_pos ⟨Nat.zero_le _, hstoplt.le⟩

variable {dynamic : DynamicPlan}

theorem DynamicOk.neededName_ok (h : DynamicOk image plan machine dynamic) {index : Nat}
    (hindex : index < dynamic.neededCount) :
    ∃ name, dynamic.neededName image index = .ok (some name) := by
  have hslot : index < maxNeeded := Nat.lt_of_lt_of_le hindex h.fewNeeded
  have hmem : dynamic.needed.get index ∈ dynamic.needed.leading dynamic.neededCount := by
    refine mem_of_getElem? (i := index) ?_
    rw [Slots.leading, List.getElem?_take_of_lt hindex, List.getElem?_ofFn, dif_pos hslot,
      Slots.get_of_lt _ hslot]
  rcases h.neededNames _ hmem with ⟨strings, hstrings, hnames⟩
  rcases stringAt_ok (h.tables strings (.inr (.inl hstrings))) hnames with ⟨name, hname⟩
  refine ⟨name, ?_⟩
  rw [DynamicPlan.neededName, if_neg (Nat.not_le.mpr hindex), hstrings, DynamicPlan.neededOffset,
    if_pos hslot]
  change (stringAt image strings (dynamic.needed.get index) >>= fun name => pure (some name)) = _
  rw [hname]
  rfl

theorem lookupFrom_ends {symbols strings : Table} {count : Nat} (hsymbols : TableOk image plan symbols)
    (hsize : symbols.size = count * symbolSize) (hstrings : TableOk image plan strings)
    (name : List UInt8) (indices : List Nat) (hindices : ∀ i ∈ indices, i < count) :
    Ends (DynamicPlan.lookupFrom image symbols strings name indices) fun _ => True := by
  induction indices with
  | nil => exact trivial
  | cons index rest ih =>
    have hfits := hsymbols.fits
    have hindex : (index + 1) * symbolSize ≤ count * symbolSize :=
      Nat.mul_le_mul_right _ (hindices index mem_cons_self)
    rw [Nat.add_mul] at hindex
    have hrest := ih fun i hi => hindices i (mem_cons_of_mem _ hi)
    have hname (offset : Nat) : Ends (stringAt image strings offset) fun _ => True :=
      ends_mono (stringAt_ends hstrings.fits) fun _ _ => trivial
    simp [DynamicPlan.lookupFrom, ends_of_safe (hname _), hrest, readU16]
    refine fun _ _ => ⟨by omega, ?_⟩
    intros
    omega

theorem DynamicOk.lookupSymbol_ends (h : DynamicOk image plan machine dynamic) (name : List UInt8) :
    Ends (dynamic.lookupSymbol image name) fun _ => True := by
  unfold DynamicPlan.lookupSymbol
  split
  · exact trivial
  · rename_i symbols hsymbols
    rw [ends_bind, ends_require]
    intro strings hstrings
    exact lookupFrom_ends (h.tables symbols (.inr (.inr hsymbols))) (h.symbols symbols hsymbols)
      (h.tables strings (.inr (.inl hstrings))) name _ fun _ hi => mem_range.mp hi

/-! ### The result -/

/-- For every image and plan of its segments the parser ends without leaving the image
    and without overflow; what its plan says is so, every name it needs can be read, and
    no lookup of a symbol leaves the image. -/
theorem dynamic_sound (target : Machine) (image : List UInt8) (elfMachine : Machine)
    (loadBias : Nat) (plan : LoadPlan)
    (hplan : Elf.parse target image elfMachine loadBias = .ok plan) (machine : Machine) :
    parse image plan machine ≠ .error .panic ∧
      ∀ dynamic, parse image plan machine = .ok dynamic →
        DynamicOk image plan machine dynamic ∧
        (∀ name, dynamic.lookupSymbol image name ≠ .error .panic) ∧
        (∀ index < dynamic.neededCount,
          ∃ name, dynamic.neededName image index = .ok (some name)) ∧
        ∀ index, dynamic.neededCount ≤ index → dynamic.neededName image index = .ok none := by
  have hends := parse_ends (planOk_of_parse hplan) machine
  refine ⟨hends.no_panic, fun dynamic hdynamic => ?_⟩
  have hok := hends.of_ok hdynamic
  refine ⟨hok, fun name => (hok.lookupSymbol_ends name).no_panic,
    fun index hindex => hok.neededName_ok hindex, fun index hindex => ?_⟩
  rw [DynamicPlan.neededName, if_pos hindex]
  rfl

/-! ### A small image -/

/-- A program header. -/
def headerBytes (kind flags fileOffset fileSize : Nat) : List UInt8 :=
  leBytes 4 kind ++ leBytes 4 flags ++ leBytes 8 fileOffset ++ leBytes 8 fileOffset ++ leBytes 8 0 ++
    leBytes 8 fileSize ++ leBytes 8 fileSize ++ leBytes 8 8

/-- A shared object with one segment, which is the whole file. Its dynamic section is at
    176 and needs one library, whose name is in the three bytes of strings at 288; the one
    relocation, at 296, is relative. -/
def smallObject : List UInt8 :=
  [0x7f, 0x45, 0x4c, 0x46, 2, 1, 1] ++ List.replicate 9 0 ++ leBytes 2 3 ++ leBytes 2 62 ++
    leBytes 4 1 ++ leBytes 8 0 ++ leBytes 8 64 ++ leBytes 8 0 ++ leBytes 4 0 ++ leBytes 2 64 ++
    leBytes 2 56 ++ leBytes 2 2 ++ leBytes 6 0 ++
  headerBytes 1 5 0 320 ++ headerBytes 2 4 176 112 ++
  leBytes 8 dtNeeded ++ leBytes 8 1 ++ leBytes 8 dtStrtab ++ leBytes 8 288 ++
    leBytes 8 dtStrsz ++ leBytes 8 3 ++ leBytes 8 dtRela ++ leBytes 8 296 ++
    leBytes 8 dtRelasz ++ leBytes 8 24 ++ leBytes 8 dtRelaent ++ leBytes 8 24 ++
    leBytes 8 dtNull ++ leBytes 8 0 ++
  [0, 0x61, 0] ++ List.replicate 5 0 ++
  leBytes 8 288 ++ leBytes 8 8 ++ leBytes 8 100

/-- Both parsers accept the object at a bias, with what is asked of the plan. -/
def acceptedAt (loadBias : Nat) (p : DynamicPlan → Bool) : Bool :=
  match Elf.parse .x86_64 smallObject .x86_64 loadBias with
  | .ok plan => (parse smallObject plan .x86_64).toOption.any p
  | .error _ => false

theorem exists_of_acceptedAt {loadBias : Nat} {p : DynamicPlan → Bool}
    (h : acceptedAt loadBias p = true) :
    ∃ plan dynamic, Elf.parse .x86_64 smallObject .x86_64 loadBias = .ok plan ∧
      parse smallObject plan .x86_64 = .ok dynamic ∧ p dynamic = true := by
  unfold acceptedAt at h
  split at h
  · rename_i plan hplan
    cases hdynamic : parse smallObject plan .x86_64 with
    | error e =>
      rw [hdynamic] at h
      exact nomatch h
    | ok dynamic =>
      rw [hdynamic] at h
      exact ⟨plan, dynamic, hplan, hdynamic, h⟩
  · exact nomatch h

theorem dynamic_sound_small : ∃ plan dynamic name,
    Elf.parse .x86_64 smallObject .x86_64 0x10000 = .ok plan ∧
    parse smallObject plan .x86_64 = .ok dynamic ∧ dynamic.relocationCount = 1 ∧
    dynamic.neededName smallObject 0 = .ok (some name) := by
  have haccepted : acceptedAt 0x10000 (fun dynamic =>
      decide (dynamic.relocationCount = 1 ∧ dynamic.neededCount = 1)) = true := by
    decide +kernel
  rcases exists_of_acceptedAt haccepted with ⟨plan, dynamic, hplan, hdynamic, hp⟩
  rcases of_decide_eq_true hp with ⟨hrelocations, hneeded⟩
  rcases ((dynamic_sound _ _ _ _ plan hplan .x86_64).2 dynamic hdynamic).2.2.1 0
    (by rw [hneeded]; decide) with ⟨name, hname⟩
  exact ⟨plan, dynamic, name, hplan, hdynamic, hrelocations, hname⟩

end Dynamic

end Norx
