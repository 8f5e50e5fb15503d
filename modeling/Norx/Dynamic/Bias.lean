import Norx.Dynamic.Safety
import Norx.Lib.Lockstep

/-!
# Loading at Another Address

Both parsers at two load biases, when all four of their runs succeed. The plan of
the segments is known from the headers of the image and the bias, so there is
nothing to follow there. The second parser is followed in both runs at once: what it
reads from the image is the same, what it computes from an address differs by the
difference of the biases, and `file_offset` gives the same offset for two such
addresses, since the segments it searches are shifted alike.

## Main definitions

* `SegmentRebased`, `PlanRebased`: The plans of the segments.
* `Rebased`: The plans of the dynamic section.

## Theorems

* `fileSliceAt_same`, `gnuSymbolCount_same`: The same bytes are read.
* `bias_equivariant`: The result.
-/

namespace Norx

namespace Dynamic

open Elf (LoadPlan SegmentPlan)

/-- The addresses differ by the difference of the biases. -/
def Shifted (bias bias' address address' : Nat) : Prop :=
  (address' : Int) - address = (bias' : Int) - bias

theorem shifted_add (bias bias' offset : Nat) :
    Shifted bias bias' (bias + offset) (bias' + offset) := by
  unfold Shifted
  omega

/-! ### The plan of the segments -/

structure SegmentRebased (bias bias' : Nat) (segment segment' : SegmentPlan) : Prop where
  start : Shifted bias bias' segment.virtualStart segment'.virtualStart
  end_ : Shifted bias bias' segment.virtualEnd segment'.virtualEnd
  fileOffset : segment'.fileOffset = segment.fileOffset
  fileSize : segment'.fileSize = segment.fileSize
  memorySize : segment'.memorySize = segment.memorySize
  zeroFill : segment'.zeroFill = segment.zeroFill
  flags : segment'.flags = segment.flags

structure PlanRebased (bias bias' : Nat) (plan plan' : LoadPlan) : Prop where
  base : plan.base = bias ∧ plan'.base = bias'
  entry : Shifted bias bias' plan.entry plan'.entry
  count : plan'.segmentCount = plan.segmentCount
  segments : ∀ i, Option.Rel (SegmentRebased bias bias') (plan.segment i) (plan'.segment i)

theorem segmentOf_rebased (bias bias' : Nat) (header : Elf.ProgramHeader) :
    SegmentRebased bias bias' (Elf.segmentOf bias header) (Elf.segmentOf bias' header) :=
  ⟨shifted_add _ _ _, shifted_add _ _ _, rfl, rfl, rfl, rfl, rfl⟩

/-- What is used of the plan at one bias. -/
structure Located (image : List UInt8) (bias : Nat) (plan : LoadPlan) : Prop where
  base : plan.base = bias
  segments : plan.segments.entries = (Elf.loadHeaders image).map (Elf.segmentOf bias)
  fits : ∀ header ∈ Elf.loadHeaders image,
    (Elf.segmentOf bias header).virtualStart + header.fileSize < 2 ^ 64

variable {image : List UInt8} {header : Elf.ProgramHeader}

theorem segmentOf_fits {target : Machine} {bias : Nat}
    (h : Elf.SegmentOk target image (Elf.segmentOf bias header)) :
    (Elf.segmentOf bias header).virtualStart + header.fileSize < 2 ^ 64 := by
  have hhigh := h.high
  have hsizes := h.sizes
  have hlimit : userLimit target < 2 ^ 64 := by cases target <;> decide
  have hpage : pageSize = 4096 := rfl
  unfold Elf.segmentOf Elf.alignDown at hhigh hsizes ⊢
  simp only at hhigh hsizes ⊢
  rw [hpage] at hhigh ⊢
  omega

variable {target machine : Machine}

theorem located_of_parse {bias : Nat} {plan : LoadPlan}
    (h : Elf.parse target image machine bias = .ok plan) : Located image bias plan := by
  rcases (Elf.parse_ends target image machine bias).of_ok h with ⟨hplanned, -, -⟩
  refine ⟨hplanned.base, hplanned.segments, fun header hheader => ?_⟩
  refine segmentOf_fits (hplanned.each _ ?_)
  rw [hplanned.segments]
  exact List.mem_map_of_mem hheader

variable {bias bias' : Nat}

theorem planRebased_of_parse {plan plan' : LoadPlan}
    (h : Elf.parse target image machine bias = .ok plan)
    (h' : Elf.parse target image machine bias' = .ok plan') :
    PlanRebased bias bias' plan plan' := by
  rcases (Elf.parse_ends target image machine bias).of_ok h with ⟨hplanned, hfree, -⟩
  rcases (Elf.parse_ends target image machine bias').of_ok h' with ⟨hplanned', hfree', -⟩
  refine ⟨⟨hplanned.base, hplanned'.base⟩, ?_, hplanned'.count.trans hplanned.count.symm,
    fun i => ?_⟩
  · rw [hplanned.entry, hplanned'.entry]
    exact shifted_add _ _ _
  · unfold LoadPlan.segment
    rw [Slots.get_eq_entries hfree hplanned.few (by rw [hplanned.segments, List.length_map, hplanned.count]),
      Slots.get_eq_entries hfree' hplanned'.few
        (by rw [hplanned'.segments, List.length_map, hplanned'.count]),
      hplanned.segments, hplanned'.segments, List.getElem?_map, List.getElem?_map]
    cases (Elf.loadHeaders image)[i]? with
    | none => exact .none
    | some header => exact .some (segmentOf_rebased bias bias' header)

/-! ### Where addresses are in the file -/

section Lockstep

variable {image : List UInt8} {bias bias' : Nat} {plan plan' : LoadPlan}
  (hplan : Located image bias plan) (hplan' : Located image bias' plan')

include hplan hplan'

/-- One segment is at the same place in both plans, relative to the bias. -/
theorem offsetIn_rebased (hheader : header ∈ Elf.loadHeaders image) (address size : Nat) :
    LoadPlan.offsetIn (bias + address) (bias + address + size) (Elf.segmentOf bias header) =
      LoadPlan.offsetIn (bias' + address) (bias' + address + size) (Elf.segmentOf bias' header) := by
  have hend : Usize.checkedAdd (Elf.segmentOf bias header).virtualStart header.fileSize =
      some _ := if_pos (hplan.fits header hheader)
  have hend' : Usize.checkedAdd (Elf.segmentOf bias' header).virtualStart header.fileSize =
      some _ := if_pos (hplan'.fits header hheader)
  change (Usize.checkedAdd (Elf.segmentOf bias header).virtualStart header.fileSize).bind _ =
    (Usize.checkedAdd (Elf.segmentOf bias' header).virtualStart header.fileSize).bind _
  rw [hend, hend']
  change (if bias + address < bias + Elf.alignDown header.virtualAddress pageSize ∨ _ then _ else
      Usize.checkedAdd header.fileOffset
        (bias + address - (bias + Elf.alignDown header.virtualAddress pageSize))) =
    if bias' + address < bias' + Elf.alignDown header.virtualAddress pageSize ∨ _ then _ else
      Usize.checkedAdd header.fileOffset
        (bias' + address - (bias' + Elf.alignDown header.virtualAddress pageSize))
  rw [Nat.add_sub_add_left, Nat.add_sub_add_left]
  refine if_congr ?_ rfl rfl
  change bias + address < bias + Elf.alignDown header.virtualAddress pageSize ∨
      bias + Elf.alignDown header.virtualAddress pageSize + header.fileSize < bias + address + size ↔
    bias' + address < bias' + Elf.alignDown header.virtualAddress pageSize ∨
      bias' + Elf.alignDown header.virtualAddress pageSize + header.fileSize < bias' + address + size
  omega

theorem fileOffset_rebased {address size offset offset' : Nat}
    (h : plan.fileOffset (bias + address) size = some offset)
    (h' : plan'.fileOffset (bias' + address) size = some offset') : offset = offset' := by
  rcases Option.bind_eq_some_iff.mp h with ⟨end_, hend, h⟩
  rcases Option.bind_eq_some_iff.mp h' with ⟨end_', hend', h'⟩
  rcases Usize.checkedAdd_eq_some.mp hend with ⟨rfl, -⟩
  rcases Usize.checkedAdd_eq_some.mp hend' with ⟨rfl, -⟩
  rw [hplan.segments, List.findSome?_map] at h
  rw [hplan'.segments, List.findSome?_map] at h'
  refine Option.some.inj (h.symm.trans (Eq.trans ?_ h'))
  rw [← List.head?_filterMap, ← List.head?_filterMap]
  exact congrArg _ (List.filterMap_congr fun header hheader =>
    offsetIn_rebased hplan hplan' hheader address size)

theorem rebase_lockstep (e e' : Error) (address : Nat) :
    Lockstep (rebase plan e address) (rebase plan' e' address)
      fun a a' => a = bias + address ∧ a' = bias' + address := by
  rw [← hplan.base, ← hplan'.base]
  exact lockstep_ends (ends_rebase.mpr fun _ _ => rfl) (ends_rebase.mpr fun _ _ => rfl)

/-- A slice that is found in both runs is the same one. -/
theorem fileSliceAt_same (address size : Nat) :
    Lockstep (fileSliceAt image plan address size) (fileSliceAt image plan' address size) Eq := by
  refine lockstep_bind (rebase_lockstep hplan hplan' _ _ address) ?_
  rintro _ _ ⟨rfl, rfl⟩
  refine lockstep_eq (lockstep_require fun _ _ h h' => fileOffset_rebased hplan hplan' h h') ?_
  exact fun offset => lockstep_same fun end_ => lockstep_refl _

/-! ### Symbols -/

theorem sysvSymbolCount_same (address : Nat) :
    Lockstep (sysvSymbolCount image plan address) (sysvSymbolCount image plan' address) Eq := by
  refine lockstep_eq (fileSliceAt_same hplan hplan' address 8) fun header => ?_
  iterate 8 refine lockstep_same fun _ => ?_
  exact lockstep_skip fun _ _ => lockstep_refl _

theorem gnuChain_same (chainsAddress symbolOffset fuel index symbolCount : Nat) :
    Lockstep (gnuChain image plan chainsAddress symbolOffset fuel index symbolCount)
      (gnuChain image plan' chainsAddress symbolOffset fuel index symbolCount) Eq := by
  induction fuel generalizing index symbolCount with
  | zero => exact lockstep_refl _
  | succ fuel ih =>
    iterate 4 refine lockstep_same fun _ => ?_
    refine lockstep_eq (fileSliceAt_same hplan hplan' _ 4) fun chain => ?_
    refine lockstep_same fun value => ?_
    refine lockstep_ite (fun _ => lockstep_refl _) fun _ => ?_
    exact lockstep_same fun next => ih next _

theorem gnuSymbolCount_same (address : Nat) :
    Lockstep (gnuSymbolCount image plan address) (gnuSymbolCount image plan' address) Eq := by
  refine lockstep_eq (fileSliceAt_same hplan hplan' address 16) fun header => ?_
  iterate 11 refine lockstep_same fun _ => ?_
  refine lockstep_skip fun _ _ => lockstep_same fun chainsAddress => ?_
  refine lockstep_foldlM ?_ _ rfl
  rintro bucket symbolCount _ rfl
  iterate 3 refine lockstep_same fun _ => ?_
  refine lockstep_eq (fileSliceAt_same hplan hplan' _ 4) fun bytes => ?_
  iterate 2 refine lockstep_same fun _ => ?_
  exact lockstep_ite (fun _ => lockstep_refl _) fun _ => gnuChain_same hplan hplan' _ _ _ _ _

theorem readSymbolCount_same (tags : Tags) :
    Lockstep (readSymbolCount image plan tags) (readSymbolCount image plan' tags) Eq := by
  unfold readSymbolCount
  split
  · exact sysvSymbolCount_same hplan hplan' _
  · exact gnuSymbolCount_same hplan hplan' _
  · exact lockstep_refl _

end Lockstep

/-! ### The plans of the dynamic section -/

structure TableRebased (bias bias' : Nat) (table table' : Table) : Prop where
  address : Shifted bias bias' table.virtualAddress table'.virtualAddress
  fileOffset : table'.fileOffset = table.fileOffset
  size : table'.size = table.size
  entrySize : table'.entrySize = table.entrySize

structure RelocationRebased (bias bias' : Nat) (relocation relocation' : Relocation) : Prop where
  address : Shifted bias bias' relocation.address relocation'.address
  symbol : relocation'.symbol = relocation.symbol
  kind : relocation'.kind = relocation.kind
  addend : relocation'.addend = relocation.addend

structure RelocationsRebased (bias bias' : Nat) (relocations relocations' : Relocations) :
    Prop where
  count : relocations'.count = relocations.count
  each : ∀ i < relocations.count,
    RelocationRebased bias bias' (relocations.table.get i) (relocations'.table.get i)

structure TlsRebased (bias bias' : Nat) (tls tls' : TlsPlan) : Prop where
  address : Shifted bias bias' tls.virtualAddress tls'.virtualAddress
  fileOffset : tls'.fileOffset = tls.fileOffset
  fileSize : tls'.fileSize = tls.fileSize
  memorySize : tls'.memorySize = tls.memorySize
  alignment : tls'.alignment = tls.alignment

structure Rebased (bias bias' : Nat) (plan plan' : DynamicPlan) : Prop where
  machine : plan'.machine = plan.machine
  base : plan.base = bias ∧ plan'.base = bias'
  dynamic : Option.Rel (TableRebased bias bias') plan.dynamic plan'.dynamic
  strings : Option.Rel (TableRebased bias bias') plan.strings plan'.strings
  symbols : Option.Rel (TableRebased bias bias') plan.symbols plan'.symbols
  symbolCount : plan'.symbolCount = plan.symbolCount
  neededCount : plan'.neededCount = plan.neededCount
  needed : plan'.needed = plan.needed
  soname : plan'.sonameOffset = plan.sonameOffset
  relocations : RelocationsRebased bias bias'
    { table := plan.relocations, count := plan.relocationCount }
    { table := plan'.relocations, count := plan'.relocationCount }
  tls : Option.Rel (TlsRebased bias bias') plan.tls plan'.tls

theorem relocationsRebased_empty (bias bias' : Nat) : RelocationsRebased bias bias' .empty .empty :=
  ⟨rfl, fun _ hi => absurd hi (Nat.not_lt_zero _)⟩

variable {relocations relocations' : Relocations}

theorem RelocationsRebased.push (h : RelocationsRebased bias bias' relocations relocations')
    {relocation relocation' : Relocation}
    (hnew : RelocationRebased bias bias' relocation relocation') :
    Lockstep (relocations.push relocation) (relocations'.push relocation')
      (RelocationsRebased bias bias') := by
  unfold Relocations.push
  rw [h.count]
  refine lockstep_ite (fun hlt => lockstep_pure ⟨rfl, fun i hi => ?_⟩) fun _ => lockstep_fail _ _
  by_cases heq : i = relocations.count
  · rw [heq, Slots.get_set_self _ _ hlt, Slots.get_set_self _ _ hlt]
    exact hnew
  · rw [Slots.get_set_other _ _ heq, Slots.get_set_other _ _ heq]
    exact h.each i (Nat.lt_of_le_of_ne (Nat.le_of_lt_succ hi) heq)

section Lockstep

variable {image : List UInt8} {bias bias' : Nat} {plan plan' : LoadPlan}
  (hplan : Located image bias plan) (hplan' : Located image bias' plan')

include hplan hplan'

theorem table_lockstep (address size entrySize : Nat) :
    Lockstep (table image plan address size entrySize) (table image plan' address size entrySize)
      (TableRebased bias bias') := by
  iterate 2 refine lockstep_same fun _ => ?_
  refine lockstep_bind (rebase_lockstep hplan hplan' _ _ address) ?_
  rintro _ _ ⟨rfl, rfl⟩
  refine lockstep_eq (lockstep_require fun _ _ h h' => fileOffset_rebased hplan hplan' h h') ?_
  intro offset
  iterate 2 refine lockstep_same fun _ => ?_
  exact lockstep_pure ⟨shifted_add _ _ _, rfl, rfl, rfl⟩

theorem readDynamic_lockstep (header : ProgramHeader) :
    Lockstep (readDynamic plan header) (readDynamic plan' header) (TableRebased bias bias') := by
  iterate 2 refine lockstep_same fun _ => ?_
  refine lockstep_bind (rebase_lockstep hplan hplan' _ _ header.virtualAddress) ?_
  rintro _ _ ⟨rfl, rfl⟩
  refine lockstep_eq (lockstep_require fun _ _ h h' => fileOffset_rebased hplan hplan' h h') ?_
  exact fun offset => lockstep_pure ⟨shifted_add _ _ _, rfl, rfl, rfl⟩

theorem parseTls_lockstep (header : ProgramHeader) :
    Lockstep (parseTls image plan header) (parseTls image plan' header) (TlsRebased bias bias') := by
  iterate 6 refine lockstep_same fun _ => ?_
  refine lockstep_bind (rebase_lockstep hplan hplan' _ _ header.virtualAddress) ?_
  rintro _ _ ⟨rfl, rfl⟩
  exact lockstep_skip fun _ _ => lockstep_pure ⟨shifted_add _ _ _, rfl, rfl, rfl, rfl⟩

theorem readStrings_lockstep (tags : Tags) :
    Lockstep (readStrings image plan tags) (readStrings image plan' tags)
      (Option.Rel (TableRebased bias bias')) := by
  unfold readStrings
  split
  · exact lockstep_bind (table_lockstep hplan hplan' _ _ _) fun _ _ h => lockstep_pure (.some h)
  · exact lockstep_ite (fun _ => lockstep_pure .none) fun _ => lockstep_fail _ _
  · exact lockstep_fail _ _

theorem readSymbols_lockstep (tags : Tags) :
    Lockstep (readSymbols image plan tags) (readSymbols image plan' tags) fun r r' =>
      Option.Rel (TableRebased bias bias') r.1 r'.1 ∧ r'.2 = r.2 := by
  unfold readSymbols
  split
  · iterate 2 refine lockstep_same fun _ => ?_
    refine lockstep_eq (readSymbolCount_same hplan hplan' tags) fun count => ?_
    refine lockstep_same fun size => ?_
    refine lockstep_bind (table_lockstep hplan hplan' _ _ _) fun _ _ h => ?_
    exact lockstep_pure ⟨.some h, rfl⟩
  · exact lockstep_pure ⟨.none, rfl⟩

section Relocations

variable (machine : Machine) (symbolCount : Nat)

theorem readRelocation_lockstep (entry : List UInt8) :
    Lockstep (readRelocation plan machine symbolCount entry)
      (readRelocation plan' machine symbolCount entry) (RelocationRebased bias bias') := by
  refine lockstep_same fun target => ?_
  refine lockstep_bind (rebase_lockstep hplan hplan' _ _ target) ?_
  rintro _ _ ⟨rfl, rfl⟩
  refine lockstep_skip fun _ _ => ?_
  iterate 6 refine lockstep_same fun _ => ?_
  exact lockstep_pure ⟨shifted_add _ _ _, rfl, rfl, rfl⟩

theorem appendRelocations_lockstep (h : RelocationsRebased bias bias' relocations relocations')
    (address size entrySize : Nat) :
    Lockstep (appendRelocations image plan machine symbolCount relocations address size entrySize)
      (appendRelocations image plan' machine symbolCount relocations' address size entrySize)
      (RelocationsRebased bias bias') := by
  iterate 3 refine lockstep_same fun _ => ?_
  refine lockstep_eq (fileSliceAt_same hplan hplan' address _) fun table => ?_
  refine lockstep_foldlM (fun index r r' hr => ?_) _ h
  refine lockstep_skip fun _ _ => ?_
  iterate 4 refine lockstep_same fun _ => ?_
  exact lockstep_bind (readRelocation_lockstep hplan hplan' machine symbolCount _)
    fun _ _ hnew => hr.push hnew

theorem readRela_lockstep (tags : Tags) :
    Lockstep (readRela image plan machine symbolCount tags .empty)
      (readRela image plan' machine symbolCount tags .empty) (RelocationsRebased bias bias') := by
  have hempty := relocationsRebased_empty bias bias'
  unfold readRela
  split
  · iterate 2 refine lockstep_same fun _ => ?_
    exact appendRelocations_lockstep hplan hplan' machine symbolCount hempty _ _ _
  · exact lockstep_ite (fun _ => lockstep_fail _ _) fun _ => lockstep_pure hempty

theorem readPlt_lockstep (tags : Tags)
    (h : RelocationsRebased bias bias' relocations relocations') :
    Lockstep (readPlt image plan machine symbolCount tags relocations)
      (readPlt image plan' machine symbolCount tags relocations') (RelocationsRebased bias bias') := by
  unfold readPlt
  split
  · iterate 2 refine lockstep_same fun _ => ?_
    exact appendRelocations_lockstep hplan hplan' machine symbolCount h _ _ _
  · exact lockstep_ite (fun _ => lockstep_fail _ _) fun _ => lockstep_pure h

end Relocations

theorem parseDynamic_lockstep (machine : Machine) (header : ProgramHeader) {tls tls' : Option TlsPlan}
    (htls : Option.Rel (TlsRebased bias bias') tls tls') :
    Lockstep (parseDynamic image plan machine header tls)
      (parseDynamic image plan' machine header tls') (Rebased bias bias') := by
  refine lockstep_bind (readDynamic_lockstep hplan hplan' header) fun table table' htable => ?_
  -- The section is at one place of the file, so the same tags are read.
  rw [htable.fileOffset, htable.size]
  refine lockstep_same fun ⟨terminated, tags⟩ => ?_
  refine lockstep_same fun _ => ?_
  refine lockstep_bind (readStrings_lockstep hplan hplan' tags) fun strings strings' hstrings => ?_
  refine lockstep_bind (readSymbols_lockstep hplan hplan' tags) ?_
  rintro ⟨symbols, count⟩ ⟨symbols', count'⟩ ⟨hsymbols, rfl⟩
  refine lockstep_skip fun _ _ => ?_
  refine lockstep_same fun _ => ?_
  refine lockstep_bind (readRela_lockstep hplan hplan' machine _ tags) fun rela rela' hrela => ?_
  refine lockstep_bind (readPlt_lockstep hplan hplan' machine _ tags hrela) fun r r' hr => ?_
  exact lockstep_pure ⟨rfl, ⟨hplan.base, hplan'.base⟩, .some htable, hstrings, hsymbols, rfl, rfl,
    rfl, rfl, hr, htls⟩

/-- What the loop over the program headers has found. -/
def HeadersRebased (bias bias' : Nat) (headers headers' : Headers) : Prop :=
  headers'.dynamic = headers.dynamic ∧ Option.Rel (TlsRebased bias bias') headers.tls headers'.tls

theorem readHeader_lockstep (programHeaderOffset index : Nat) {headers headers' : Headers}
    (h : HeadersRebased bias bias' headers headers') :
    Lockstep (readHeader image plan programHeaderOffset headers index)
      (readHeader image plan' programHeaderOffset headers' index) (HeadersRebased bias bias') := by
  iterate 2 refine lockstep_same fun _ => ?_
  refine lockstep_same fun header => ?_
  refine lockstep_ite (fun _ => ?_) fun _ => lockstep_ite (fun _ => ?_) fun _ => lockstep_pure h
  · exact lockstep_skip fun _ _ => lockstep_pure ⟨rfl, h.2⟩
  · refine lockstep_bind (parseTls_lockstep hplan hplan' header) fun _ _ htls => ?_
    exact lockstep_pure ⟨h.1, .some htls⟩

theorem parse_lockstep (machine : Machine) :
    Lockstep (parse image plan machine) (parse image plan' machine) (Rebased bias bias') := by
  refine lockstep_same fun ⟨offset, count⟩ => ?_
  refine lockstep_bind (S := HeadersRebased bias bias') (lockstep_foldlM
    (fun index _ _ h => readHeader_lockstep hplan hplan' offset index h) (List.range count)
    ⟨rfl, .none⟩) fun headers headers' hheaders => ?_
  rw [hheaders.1]
  cases headers.dynamic with
  | none =>
    exact lockstep_pure ⟨rfl, ⟨hplan.base, hplan'.base⟩, .none, .none, .none, rfl, rfl, rfl, rfl,
      relocationsRebased_empty bias bias', hheaders.2⟩
  | some header => exact parseDynamic_lockstep hplan hplan' machine header hheaders.2

end Lockstep

/-! ### The result -/

theorem addSigned_eq {base value : Nat} {addend : Int} (h : addSigned base addend = some value) :
    (value : Int) = base + addend := by
  unfold addSigned at h
  split at h
  · rcases Usize.checkedAdd_eq_some.mp h with ⟨rfl, -⟩
    omega
  · split at h
    · obtain rfl := Option.some.inj h
      omega
    · exact nomatch h

/-- The value of a relative relocation moves with the base. -/
theorem relativeValue_lockstep {plan plan' : DynamicPlan} (h : Rebased bias bias' plan plan')
    (index : Nat) :
    Lockstep (plan.relativeValue index) (plan'.relativeValue index) (Shifted bias bias') := by
  have hrelocation : Lockstep (plan.relocation index) (plan'.relocation index)
      (Option.Rel (RelocationRebased bias bias')) := by
    unfold DynamicPlan.relocation
    rw [show plan'.relocationCount = plan.relocationCount from h.relocations.count]
    refine lockstep_ite (fun _ => lockstep_pure ?_) fun _ => lockstep_fail _ _
    by_cases hlt : index < plan.relocationCount
    · rw [if_pos hlt, if_pos hlt]
      exact .some (h.relocations.each index hlt)
    · rw [if_neg hlt, if_neg hlt]
      exact .none
  refine lockstep_bind hrelocation fun found found' hfound => ?_
  cases hfound with
  | none => exact lockstep_fail _ _
  | some hrebased =>
    refine lockstep_bind (S := RelocationRebased bias bias') (lockstep_require ?_) ?_
    · rintro _ _ ⟨⟩ ⟨⟩
      exact hrebased
    · intro r r' hr
      rw [hr.kind, hr.addend, h.machine, h.base.1, h.base.2]
      refine lockstep_ite (fun _ => lockstep_fail _ _) fun _ => lockstep_require ?_
      intro value value' hvalue hvalue'
      have hsum := addSigned_eq hvalue
      have hsum' := addSigned_eq hvalue'
      unfold Shifted
      omega

/-- An object parsed at two biases gives plans that differ in their addresses only, and
    there by the difference of the biases. -/
theorem bias_equivariant (target elfMachine machine : Machine) (image : List UInt8)
    (bias bias' : Nat) (plan plan' : LoadPlan) (dynamic dynamic' : DynamicPlan)
    (hplan : Elf.parse target image elfMachine bias = .ok plan)
    (hplan' : Elf.parse target image elfMachine bias' = .ok plan')
    (hdynamic : parse image plan machine = .ok dynamic)
    (hdynamic' : parse image plan' machine = .ok dynamic') :
    PlanRebased bias bias' plan plan' ∧ Rebased bias bias' dynamic dynamic' ∧
      ∀ index value value', dynamic.relativeValue index = .ok value →
        dynamic'.relativeValue index = .ok value' → Shifted bias bias' value value' := by
  have hlocated := located_of_parse hplan
  have hlocated' := located_of_parse hplan'
  have hrebased := parse_lockstep hlocated hlocated' machine dynamic dynamic' hdynamic hdynamic'
  exact ⟨planRebased_of_parse hplan hplan', hrebased,
    fun index value value' => relativeValue_lockstep hrebased index value value'⟩

theorem bias_equivariant_small : ∃ plan plan' dynamic dynamic' value value',
    Elf.parse .x86_64 smallObject .x86_64 0x10000 = .ok plan ∧
    Elf.parse .x86_64 smallObject .x86_64 0x30000 = .ok plan' ∧
    parse smallObject plan .x86_64 = .ok dynamic ∧
    parse smallObject plan' .x86_64 = .ok dynamic' ∧
    dynamic.relativeValue 0 = .ok value ∧ dynamic'.relativeValue 0 = .ok value' ∧
    value' = value + 0x20000 := by
  have haccepted : acceptedAt 0x10000 (fun dynamic =>
      decide (dynamic.relativeValue 0 = .ok 0x10064)) = true := by decide +kernel
  have haccepted' : acceptedAt 0x30000 (fun dynamic =>
      decide (dynamic.relativeValue 0 = .ok 0x30064)) = true := by decide +kernel
  rcases exists_of_acceptedAt haccepted with ⟨plan, dynamic, hplan, hdynamic, hp⟩
  rcases exists_of_acceptedAt haccepted' with ⟨plan', dynamic', hplan', hdynamic', hp'⟩
  have hvalue := of_decide_eq_true hp
  have hvalue' := of_decide_eq_true hp'
  have hshifted := (bias_equivariant _ _ _ _ _ _ plan plan' dynamic dynamic' hplan hplan' hdynamic
    hdynamic').2.2 0 _ _ hvalue hvalue'
  exact ⟨plan, plan', dynamic, dynamic', _, _, hplan, hplan', hdynamic, hdynamic', hvalue, hvalue',
    by omega⟩

end Dynamic

end Norx
