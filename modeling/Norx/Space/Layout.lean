import Norx.Space.Owners

/-!
# The Layout of an Address Space

Pages are at distinct aligned addresses of the user half, none is both writable
and executable, the stack is a block of consecutive pages that ends at its top,
and the guard page right below it is not mapped. An operation keeps all of this,
but for three ways to break it:

* `map_stack` and `grow_stack` move the guard down to a page without looking
  whether something is mapped there already.
* `map_stack` that fails at its second page and cannot take the first one back
  leaves a stack page in a space without a stack.
* `destroy` that is refused the root has taken the pages out by then, and leaves
  the fields that describe the stack.

The allocator and the hardware play no part: the results hold from every state of
the two.

## Theorems

* `perform_layout`: A tidy operation keeps the layout, and any other one breaks it.
* `layout_iff`: The layout holds along a run exactly if its operations are tidy.
-/

namespace Norx

namespace Space

open Fallible Memory Slots List

/-- What holds of every page. -/
structure PagesOk (target : Machine) (space : AddressSpace) : Prop where
  distinct : (space.mappings.entries.map MappingInfo.virtualAddress).Nodup
  inside : ∀ mapping ∈ space.mappings.entries, mapping.virtualAddress % pageSize = 0 ∧
    pageSize ≤ mapping.virtualAddress ∧ mapping.virtualAddress + pageSize ≤ userLimit target
  user : ∀ mapping ∈ space.mappings.entries, mapping.flags.user = true ∧
    ¬ (mapping.flags.writable = true ∧ mapping.flags.executable = true)

/-- A stack page is mapped at an address. -/
def IsStack (space : AddressSpace) (page : Nat) : Prop :=
  ∃ mapping ∈ space.mappings.entries, mapping.virtualAddress = page ∧ mapping.kind = .stack

/-- Nothing is mapped at an address. -/
def IsFree (space : AddressSpace) (page : Nat) : Prop :=
  ∀ mapping ∈ space.mappings.entries, mapping.virtualAddress ≠ page

/-- The layout of an address space. -/
structure Layout (target : Machine) (space : AddressSpace) : Prop extends PagesOk target space where
  count : space.stackPages = 0 ∨
    initialStackPages ≤ space.stackPages ∧ space.stackPages ≤ maxStackPages
  stack : ∀ page, IsStack space page ↔
    ∃ k, 1 ≤ k ∧ k ≤ space.stackPages ∧ page + k * pageSize = space.stackTop
  guard_ : ∀ page, space.stackGuard = some page →
    page + (space.stackPages + 1) * pageSize = space.stackTop ∧ IsFree space page

/-- The layout, with the stack at the end of the user half, and a guard or a
    stack in a space that has both. -/
structure Sound (target : Machine) (space : AddressSpace) : Prop where
  layout : Layout target space
  top : space.stackTop + pageSize = userLimit target
  unguarded : space.stackPages = 0 → space.stackGuard = none
  gone : space.rootFrame = none → space.stackPages = 0

/-- An operation does none of the three. -/
def Tidy (target : Machine) (e : Env) : SpaceCall → Prop
  | .mapStack =>
    -- The page that becomes the guard is free, or the pages are as they were.
    ((mapStack target e).1 = .ok () → IsFree e.space (e.space.stackTop - 3 * pageSize)) ∧
    ((mapStack target e).1 ≠ .ok () → (mapStack target e).2.space.mappings = e.space.mappings)
  | .growStack faultAddress =>
    (growStack target faultAddress e).1 = .ok true →
      IsFree e.space (e.space.stackTop - (e.space.stackPages + 2) * pageSize)
  | .destroy =>
    e.space.stackPages ≠ 0 → (destroy target e).2.space.rootFrame = none →
      (destroy target e).1 = .ok ()
  | _ => True

variable {page virtualAddress : Nat}

section

variable {target : Machine} {space space' : AddressSpace}

theorem validatePage_ok (h : validatePage target page = .ok ()) :
    page % pageSize = 0 ∧ pageSize ≤ page ∧ page + pageSize ≤ userLimit target := by
  rcases except_guard_ok h with ⟨haligned, h⟩
  rcases except_guard_ok h with ⟨_, h⟩
  by_cases hout : page < pageSize ∨ userLimit target < page + pageSize
  · rw [if_pos hout] at h
    exact nomatch h
  · omega

variable {flags : PageFlags}

theorem validate_ok (h : flags.validate = .ok ()) :
    flags.user = true ∧ ¬ (flags.writable = true ∧ flags.executable = true) := by
  rcases except_guard_ok h with ⟨huser, h⟩
  rcases except_guard_ok h with ⟨hwx, _⟩
  exact ⟨Bool.not_eq_false _ ▸ huser, hwx⟩

/-! ### What a new page does to the pages -/

section Mapped

variable {virtualAddress : Nat} {flags : PageFlags} {kind : MappingKind} {mapping : MappingInfo}

section

variable (h : Mapped target virtualAddress flags kind space mapping space')

include h

theorem Mapped.entries : space'.mappings.entries.Perm (mapping :: space.mappings.entries) := by
  rcases h.filled with ⟨slot, hslot, tables, rfl⟩
  rcases position_eq_some.mp hslot with ⟨hlt, hnone, _⟩
  exact entries_fill hlt (Option.isNone_iff_eq_none.mp hnone) mapping

/-- The page was free. -/
theorem Mapped.isFree : IsFree space virtualAddress := by
  intro other hmem heq
  rcases mem_entries.mp hmem with ⟨i, hi⟩
  have hfree := any_eq_false.mp h.free i (Arena.lt_of_get_some hi)
  rw [hi, mapsPage, Option.any_some, decide_eq_false_iff_not] at hfree
  exact hfree heq

theorem Mapped.pagesOk (hpages : PagesOk target space) : PagesOk target space' := by
  have hinside := validatePage_ok h.pageOk
  have huser := validate_ok h.flagsOk
  rw [← h.address] at hinside
  rw [← h.flags] at huser
  refine ⟨?_, fun other hmem => ?_, fun other hmem => ?_⟩
  · rw [(h.entries.map MappingInfo.virtualAddress).nodup_iff, map_cons, nodup_cons]
    refine ⟨fun hmem => ?_, hpages.distinct⟩
    rcases mem_map.mp hmem with ⟨other, hother, haddress⟩
    exact h.isFree other hother (haddress.trans h.address)
  · rcases mem_cons.mp (h.entries.mem_iff.mp hmem) with rfl | hmem
    · exact hinside
    · exact hpages.inside other hmem
  · rcases mem_cons.mp (h.entries.mem_iff.mp hmem) with rfl | hmem
    · exact huser
    · exact hpages.user other hmem

theorem Mapped.isFree_iff : IsFree space' page ↔ IsFree space page ∧ virtualAddress ≠ page := by
  unfold IsFree
  simp only [h.entries.mem_iff, forall_mem_cons, h.address]
  exact And.comm

theorem Mapped.isStack_iff :
    IsStack space' page ↔ (virtualAddress = page ∧ kind = .stack) ∨ IsStack space page := by
  unfold IsStack
  simp [h.entries.mem_iff, h.address, h.kind]

theorem Mapped.fields :
    space'.stackTop = space.stackTop ∧ space'.stackPages = space.stackPages ∧
      space'.stackGuard = space.stackGuard := by
  rcases h.filled with ⟨slot, _, tables, rfl⟩
  exact ⟨rfl, rfl, rfl⟩

end

end Mapped

variable {mapping : MappingInfo}

theorem mapping_some (h : space.mapping page = some mapping) :
    mapping ∈ space.mappings.entries ∧ mapping.virtualAddress = page := by
  exact ⟨mem_of_find?_eq_some h, by simpa using List.find?_some h⟩

theorem Unmapped.entries (h : Unmapped virtualAddress space space') :
    ∃ mapping, mapping.virtualAddress = virtualAddress ∧
      space.mappings.entries.Perm (mapping :: space'.mappings.entries) := by
  rcases h with ⟨slot, hslot, rfl⟩
  have hmaps := (position_eq_some.mp hslot).2.1
  rcases (Option.any_eq_true _ _).mp hmaps with ⟨mapping, hget, haddress⟩
  exact ⟨mapping, of_decide_eq_true haddress, entries_clear hget⟩

theorem Unmapped.pagesOk (h : Unmapped virtualAddress space space') (hpages : PagesOk target space) :
    PagesOk target space' := by
  rcases h.entries with ⟨taken, _, hperm⟩
  have hdistinct := hpages.distinct
  rw [(hperm.map MappingInfo.virtualAddress).nodup_iff, map_cons, nodup_cons] at hdistinct
  have hback {other : MappingInfo} (hmem : other ∈ space'.mappings.entries) :
      other ∈ space.mappings.entries := hperm.mem_iff.mpr (mem_cons_of_mem _ hmem)
  exact ⟨hdistinct.2, fun other hmem => hpages.inside other (hback hmem),
    fun other hmem => hpages.user other (hback hmem)⟩

/-! ### What the operations do to the layout -/

/-- The layout is a matter of the pages and the stack's fields. -/
theorem Sound.of_pages (h : Sound target space) (hpages : PagesOk target space')
    (hstack : ∀ page, IsStack space' page ↔ IsStack space page)
    (hfree : ∀ page, space.stackGuard = some page → IsFree space page → IsFree space' page)
    (htop : space'.stackTop = space.stackTop) (hcount : space'.stackPages = space.stackPages)
    (hguard : space'.stackGuard = space.stackGuard)
    (hroot : space'.rootFrame = none → space.rootFrame = none) : Sound target space' := by
  refine ⟨⟨hpages, ?_, fun page => ?_, fun page hpage => ?_⟩, ?_, ?_, ?_⟩
  · rw [hcount]
    exact h.layout.count
  · rw [hstack, hcount, htop]
    exact h.layout.stack page
  · rw [hguard] at hpage
    rw [hcount, htop]
    rcases h.layout.guard_ page hpage with ⟨hplace, hbefore⟩
    exact ⟨hplace, hfree page hpage hbefore⟩
  · rw [htop]
    exact h.top
  · rw [hcount, hguard]
    exact h.unguarded
  · rw [hcount]
    exact fun hnone => h.gone (hroot hnone)

theorem Sound.kept (h : Sound target space) (active : Bool) (tables : Slots maxTableFrames (Option UInt64)) :
    Sound target { space with active := active, tableFrames := tables } :=
  h.of_pages ⟨h.layout.distinct, h.layout.inside, h.layout.user⟩ (fun _ => Iff.rfl)
    (fun _ _ hfree => hfree) rfl rfl rfl id

theorem TablesOnly.sound (h : TablesOnly space space') (hsound : Sound target space) :
    Sound target space' := by
  rcases h with ⟨tables, rfl⟩
  exact hsound.kept space.active tables

theorem Mapped.sound (h : Mapped target virtualAddress flags .anonymous space mapping space')
    (hsound : Sound target space) : Sound target space' := by
  rcases h.fields with ⟨htop, hcount, hguard⟩
  refine hsound.of_pages (h.pagesOk hsound.layout.toPagesOk) (fun page => ?_)
    (fun page hpage hfree => ?_) htop hcount hguard fun hnone => absurd (h.root ▸ hnone) h.live
  · rw [h.isStack_iff]
    exact or_iff_right fun hstack => nomatch hstack.2
  · -- The guard is refused to any page that is not the stack's.
    exact h.isFree_iff.mpr ⟨hfree, fun heq => h.notGuard ⟨heq ▸ hpage, nofun⟩⟩

theorem Unmapped.sound (h : Unmapped virtualAddress space space')
    (hmapping : space.mapping virtualAddress = some mapping) (hkind : mapping.kind = .anonymous)
    (hsound : Sound target space) : Sound target space' := by
  rcases h.entries with ⟨taken, haddress, hperm⟩
  have hsame : taken = mapping :=
    -- Two pages at one address are one.
    inj_on_of_nodup_map hsound.layout.distinct (hperm.mem_iff.mpr mem_cons_self)
      (mapping_some hmapping).1 (haddress.trans (mapping_some hmapping).2.symm)
  have hstack (page : Nat) : IsStack space' page ↔ IsStack space page := by
    unfold IsStack
    simp only [hperm.mem_iff, mem_cons, exists_eq_or_imp, hsame, hkind]
    exact (or_iff_right fun hstack => nomatch hstack.2).symm
  have hpages := h.pagesOk hsound.layout.toPagesOk
  rcases h with ⟨slot, _, rfl⟩
  exact hsound.of_pages hpages hstack (fun page _ hfree other hmem =>
    hfree other (hperm.mem_iff.mpr (mem_cons_of_mem _ hmem))) rfl rfl rfl id

/-! ### The stack -/

variable {pages bottom : Nat}

theorem sound_guarded (hpages : PagesOk target space)
    (hcount : initialStackPages ≤ pages ∧ pages ≤ maxStackPages)
    (hstack : ∀ page, IsStack space page ↔ ∃ k, 1 ≤ k ∧ k ≤ pages ∧ page + k * pageSize = space.stackTop)
    (hbottom : bottom + pages * pageSize = space.stackTop) (hlow : pageSize ≤ bottom)
    (hfree : IsFree space (bottom - pageSize)) (htop : space.stackTop + pageSize = userLimit target)
    (hlive : space.rootFrame ≠ none) : Sound target (space.guarded pages bottom) := by
  refine ⟨⟨⟨hpages.distinct, hpages.inside, hpages.user⟩, .inr hcount, hstack,
    fun page hpage => ?_⟩, htop, fun hnone => ?_, fun hnone => absurd hnone hlive⟩
  · have hguard : bottom - pageSize = page := by
      have hsome : (space.guarded pages bottom).stackGuard = some (bottom - pageSize) :=
        if_neg (Nat.not_lt.mpr hlow)
      exact Option.some.inj (hsome.symm.trans hpage)
    rw [← hguard]
    refine ⟨?_, hfree⟩
    change bottom - pageSize + (pages + 1) * pageSize = space.stackTop
    rw [Nat.add_mul]
    omega
  · have hzero : pages = 0 := hnone
    have htwo : 2 ≤ pages := hcount.1
    omega

section Stack

variable {first guard_ : Nat} {mapping mapping' : MappingInfo} {space₁ space₂ : AddressSpace}

theorem Sound.stacked (hsound : Sound target space) (hnew : space.stackPages = 0)
    (htop : first + initialStackPages * pageSize = space.stackTop)
    (h₁ : Mapped target first PageFlags.userRw .stack space mapping space₁)
    (h₂ : Mapped target (first + pageSize) PageFlags.userRw .stack space₁ mapping' space₂)
    (hfree : IsFree space (space.stackTop - 3 * pageSize)) :
    Sound target (space₂.guarded initialStackPages first) := by
  have hfirst := (validatePage_ok h₁.pageOk).2.1
  have htop₂ : space₂.stackTop = space.stackTop := h₂.fields.1.trans h₁.fields.1
  have htop : first + 2 * pageSize = space.stackTop := htop
  have hpos : 0 < pageSize := by decide
  have hbelow : first - pageSize = space.stackTop - 3 * pageSize := by omega
  refine sound_guarded (h₂.pagesOk (h₁.pagesOk hsound.layout.toPagesOk)) (by decide)
    (fun page => ?_) (htop.trans htop₂.symm) hfirst ?_ (htop₂ ▸ hsound.top) (by rw [h₂.root]; exact h₂.live)
  · have hnone : ¬ IsStack space page := by
      rw [hsound.layout.stack]
      omega
    rw [h₂.isStack_iff, h₁.isStack_iff, htop₂]
    constructor
    · rintro (⟨rfl, _⟩ | ⟨rfl, _⟩ | hstack)
      · exact ⟨1, Nat.le_refl 1, (by decide), by omega⟩
      · exact ⟨2, (by decide), (by decide), by omega⟩
      · exact absurd hstack hnone
    · rintro ⟨k, hk, hk', hpage⟩
      have hk' : k ≤ 2 := hk'
      have hcases : k = 1 ∨ k = 2 := by omega
      rcases hcases with rfl | rfl
      · exact .inl ⟨by omega, rfl⟩
      · exact .inr (.inl ⟨by omega, rfl⟩)
  · rw [h₂.isFree_iff, h₁.isFree_iff, hbelow]
    exact ⟨⟨hfree, by omega⟩, by omega⟩

theorem Sound.grown (hsound : Sound target space) (hguard : space.stackGuard = some guard_)
    (hmore : space.stackPages ≠ maxStackPages)
    (h : Mapped target guard_ PageFlags.userRw .stack space mapping space₁)
    (hfree : IsFree space (space.stackTop - (space.stackPages + 2) * pageSize)) :
    Sound target (space₁.guarded (space₁.stackPages + 1) guard_) := by
  have hlow := (validatePage_ok h.pageOk).2.1
  rcases h.fields with ⟨htop, hcount, _⟩
  have hbottom := (hsound.layout.guard_ guard_ hguard).1
  have hpages : initialStackPages ≤ space.stackPages ∧ space.stackPages ≤ maxStackPages := by
    refine hsound.layout.count.resolve_left fun hzero => ?_
    rw [hsound.unguarded hzero] at hguard
    exact nomatch hguard
  have hbelow : guard_ - pageSize = space.stackTop - (space.stackPages + 2) * pageSize := by
    rw [Nat.add_mul] at hbottom ⊢
    omega
  rw [hcount]
  refine sound_guarded (h.pagesOk hsound.layout.toPagesOk) (by omega) (fun page => ?_)
    (hbottom.trans htop.symm) hlow ?_ (htop ▸ hsound.top) (by rw [h.root]; exact h.live)
  · rw [h.isStack_iff, hsound.layout.stack, htop]
    constructor
    · rintro (⟨rfl, _⟩ | ⟨k, hk, hk', hpage⟩)
      · exact ⟨space.stackPages + 1, by omega, Nat.le_refl _, hbottom⟩
      · exact ⟨k, hk, by omega, hpage⟩
    · rintro ⟨k, hk, hk', hpage⟩
      rcases Nat.lt_or_eq_of_le hk' with hlt | rfl
      · exact .inr ⟨k, hk, by omega, hpage⟩
      · exact .inl ⟨by omega, rfl⟩
  · rw [h.isFree_iff, hbelow]
    refine ⟨hfree, ?_⟩
    have hpage : 0 < pageSize := by decide
    omega

/-- A page that becomes the guard is not free, so the layout is broken. -/
theorem not_layout_guarded (hlow : pageSize ≤ bottom)
    (hmapped : ¬ IsFree space (bottom - pageSize)) :
    ¬ Layout target (space.guarded pages bottom) :=
  fun h => hmapped (h.guard_ (bottom - pageSize) (if_neg (Nat.not_lt.mpr hlow))).2

/-- A stack page in a space that has none. -/
theorem not_layout_torn (hnew : space.stackPages = 0)
    (h : Mapped target first PageFlags.userRw .stack space mapping space₁)
    (htables : TablesOnly space₁ space') : ¬ Layout target space' := by
  intro hlayout
  rcases htables with ⟨tables, rfl⟩
  have hstack : IsStack { space₁ with tableFrames := tables } first := h.isStack_iff.mpr (.inl ⟨rfl, rfl⟩)
  rcases (hlayout.stack first).mp hstack with ⟨k, hk, hk', _⟩
  have hzero : space₁.stackPages = 0 := h.fields.2.1.trans hnew
  have hk' : k ≤ space₁.stackPages := hk'
  omega

end Stack

/-- A space without pages and without a stack. -/
theorem sound_empty (hmappings : space.mappings = Slots.replicate maxMappings none)
    (hzero : space.stackPages = 0) (hguard : space.stackGuard = none)
    (htop : space.stackTop + pageSize = userLimit target) : Sound target space := by
  have hentries : space.mappings.entries = [] := by rw [hmappings, entries_replicate]
  refine ⟨⟨⟨?_, ?_, ?_⟩, .inl hzero, fun page => ?_, fun page hpage => ?_⟩, htop,
    fun _ => hguard, fun _ => hzero⟩
  · rw [hentries]
    exact nodup_nil
  · rw [hentries]
    exact nofun
  · rw [hentries]
    exact nofun
  · unfold IsStack
    rw [hentries]
    constructor
    · exact nofun
    · rintro ⟨k, hk, hk', _⟩
      omega
  · rw [hguard] at hpage
    exact nomatch hpage

/-- Without its pages, a space with a stack has not the pages it says. -/
theorem not_layout_emptied (hsound : Sound target space) (hsome : space.stackPages ≠ 0) :
    ¬ Layout target space.emptied := by
  intro hlayout
  have hpage : IsStack space.emptied (space.stackTop - pageSize) := by
    refine (hlayout.stack _).mpr ⟨1, Nat.le_refl 1, Nat.one_le_iff_ne_zero.mpr hsome, ?_⟩
    have htop := hsound.top
    have hlimit : 2 * pageSize ≤ userLimit target := by cases target <;> decide
    change space.stackTop - pageSize + 1 * pageSize = space.stackTop
    omega
  rcases hpage with ⟨mapping, hmem, _⟩
  exact nomatch hmem

/-! ### Every operation -/

/-- What a condition decides is whether the layout holds. -/
def Decides (target : Machine) (tidy : Prop) (space : AddressSpace) : Prop :=
  tidy ∧ Sound target space ∨ ¬ tidy ∧ ¬ Layout target space

/-- A tidy operation keeps the layout, and any other one breaks it. -/
theorem perform_layout (call : SpaceCall) (e : Env) (hsound : Sound target e.space) :
    Decides target (Tidy target e call) (perform target call e).2.space := by
  have hsame {e' : Env} (h : HardwareOnly e e') : Sound target e'.space := by
    rcases h with ⟨hardware, rfl⟩
    exact hsound
  refine of_wp (P := fun e' : Env => Decides target (Tidy target e call) e'.space) ?_
  cases call with
  | mapAnonymous virtualAddress flags =>
    exact (wp_bind _ _ _ _ _).mpr (wp_mono (mapPage_effect virtualAddress flags .anonymous)
      (fun _ _ h => .inl ⟨trivial, h.sound hsound⟩) fun _ _ h => .inl ⟨trivial, h.sound hsound⟩)
  | mapStack =>
    refine wp_mono (wp_run mapStack_effect) (fun _ e' he' => ?_) fun _ e' he' => ?_
    · rcases he' with ⟨hrun, hnew, _, first, _, space₁, _, space₂, htop, h₁, h₂, hspace⟩
      have hok : (mapStack target e).1 = .ok () := congrArg Prod.fst hrun
      rw [hspace]
      by_cases hfree : IsFree e.space (e.space.stackTop - 3 * pageSize)
      · exact .inl ⟨⟨fun _ => hfree, (absurd hok ·)⟩, hsound.stacked hnew htop h₁ h₂ hfree⟩
      · refine .inr ⟨fun htidy => hfree (htidy.1 hok),
          not_layout_guarded (validatePage_ok h₁.pageOk).2.1 fun hbelow => hfree ?_⟩
        have hguard : first - pageSize = e.space.stackTop - 3 * pageSize := by
          have htop : first + 2 * pageSize = e.space.stackTop := htop
          omega
        rw [h₂.isFree_iff, h₁.isFree_iff, hguard] at hbelow
        exact hbelow.1.1
    · rcases he' with ⟨hrun, h | ⟨first, mapping, space₁, hnew, h, htables⟩⟩
      · refine .inl ⟨⟨fun hok => (nomatch (congrArg Prod.fst hrun).symm.trans hok), fun _ => ?_⟩,
          h.sound hsound⟩
        rcases h with ⟨tables, h⟩
        exact (congrArg (·.2.space.mappings) hrun).trans (by rw [h])
      · refine .inr ⟨fun htidy => ?_, not_layout_torn hnew h htables⟩
        -- The page that was left was free before.
        have hmappings : e'.space.mappings = e.space.mappings :=
          (congrArg (·.2.space.mappings) hrun).symm.trans (htidy.2 fun hok =>
            nomatch (congrArg Prod.fst hrun).symm.trans hok)
        rcases htables with ⟨tables, htables⟩
        rw [htables] at hmappings
        exact h.isFree mapping (hmappings ▸ h.entries.mem_iff.mpr mem_cons_self) h.address
  | growStack faultAddress =>
    refine (wp_bind _ _ _ _ _).mpr (wp_mono (wp_run (growStack_effect faultAddress))
      (fun grown e' he' => ?_) fun _ e' he' => ?_)
    · change Decides target _ e'.space
      rcases he' with ⟨hrun, ⟨rfl, hspace⟩ | ⟨rfl, guard_, _, space₁, hguard, hmore, h, hspace⟩⟩
      · refine .inl ⟨fun hok => (nomatch (congrArg Prod.fst hrun).symm.trans hok), ?_⟩
        rw [hspace]
        exact hsound
      · have hok : (growStack target faultAddress e).1 = .ok true := congrArg Prod.fst hrun
        rw [hspace]
        by_cases hfree : IsFree e.space (e.space.stackTop - (e.space.stackPages + 2) * pageSize)
        · exact .inl ⟨fun _ => hfree, hsound.grown hguard hmore h hfree⟩
        · refine .inr ⟨fun htidy => hfree (htidy hok),
            not_layout_guarded (validatePage_ok h.pageOk).2.1 fun hbelow => hfree ?_⟩
          have hplace : guard_ - pageSize =
              e.space.stackTop - (e.space.stackPages + 2) * pageSize := by
            have hbottom := (hsound.layout.guard_ guard_ hguard).1
            rw [Nat.add_mul] at hbottom ⊢
            omega
          rw [h.isFree_iff, hplace] at hbelow
          exact hbelow.1
    · exact .inl ⟨fun hok => (nomatch (congrArg Prod.fst he'.1).symm.trans hok), he'.2.sound hsound⟩
  | unmapPage virtualAddress =>
    refine wp_mono (unmapPage_effect virtualAddress) (fun _ e' he' => ?_) fun _ e' he' => ?_
    · rcases he' with ⟨⟨mapping, hmapping, hkind⟩, h⟩
      exact .inl ⟨trivial, h.sound hmapping hkind hsound⟩
    · rw [he']
      exact .inl ⟨trivial, hsound⟩
  | activate =>
    exact wp_mono activate_effect
      (fun _ e' h => .inl ⟨trivial, h.2.sound (hsound.kept true e.space.tableFrames)⟩)
      fun _ _ h => .inl ⟨trivial, h.sound hsound⟩
  | destroy =>
    refine wp_mono (wp_run destroy_effect) (fun _ e' he' => ?_) fun _ e' he' => ?_
    · rw [he'.2]
      exact .inl ⟨fun _ _ => congrArg Prod.fst he'.1, sound_empty rfl rfl rfl hsound.top⟩
    · rcases he' with ⟨hrun, he'⟩
      have hroot : (destroy target e).2.space.rootFrame = e'.space.rootFrame :=
        congrArg (·.2.space.rootFrame) hrun
      have hlive (hkept : e'.space.rootFrame = e.space.rootFrame) : Tidy target e .destroy :=
        fun hsome hnone => absurd (hsound.gone ((hkept ▸ hroot).symm.trans hnone)) hsome
      rcases he' with he' | he' | he'
      · exact .inl ⟨hlive (by rw [he']), he' ▸ hsound⟩
      · exact .inl ⟨hlive (by rw [he']), he' ▸ hsound.kept false e.space.tableFrames⟩
      · rw [he'] at hroot ⊢
        by_cases hzero : e.space.stackPages = 0
        · exact .inl ⟨fun hsome => absurd hzero hsome,
            sound_empty rfl hzero (hsound.unguarded hzero) hsound.top⟩
        · exact .inr ⟨fun htidy => (nomatch (congrArg Prod.fst hrun).symm.trans (htidy hzero hroot)),
            not_layout_emptied hsound hzero⟩
  | load virtualAddress bytes =>
    exact wp_mono (load_effect virtualAddress bytes) (fun _ _ h => .inl ⟨trivial, hsame h⟩)
      fun _ _ h => .inl ⟨trivial, hsame h⟩
  | loadWords virtualAddress words =>
    exact wp_mono (loadWords_effect virtualAddress words) (fun _ _ h => .inl ⟨trivial, hsame h⟩)
      fun _ _ h => .inl ⟨trivial, hsame h⟩
  | store address byte =>
    exact wp_mono (store_effect address byte) (fun _ _ h => .inl ⟨trivial, hsame h⟩)
      fun _ _ h => .inl ⟨trivial, hsame h⟩

end

/-! ### Runs -/

/-- The condition on a call. -/
def TidyCall (target : Machine) (w : World) : Call → Prop
  | .on index call => ∀ space, w.spaces[index]? = some space → Tidy target (w.env space) call
  | .new .. => True

theorem step_sound {target : Machine} {w : World} (h : ∀ space ∈ w.spaces, Sound target space)
    {call : Call} (htidy : TidyCall target w call) :
    ∀ space ∈ (step target w call).spaces, Sound target space := by
  cases call with
  | new owner aslr =>
    rw [step, new_eq]
    cases w.frames.take.1 with
    | none => exact h
    | some root =>
      intro space hmem
      rcases mem_append.mp hmem with hmem | hmem
      · exact h space hmem
      · rw [mem_singleton.mp hmem]
        exact sound_empty rfl rfl rfl (by cases target <;> rfl)
  | on index call =>
    cases hspace : w.spaces[index]? with
    | none =>
      simp only [step, hspace]
      exact h
    | some space =>
      simp only [step, hspace]
      intro space' hmem
      rcases mem_or_eq_of_mem_set hmem with hmem | rfl
      · exact h space' hmem
      · rcases perform_layout call (w.env space) (h space (mem_of_getElem? hspace)) with hkept | hbroken
        · exact hkept.2
        · exact absurd (htidy space hspace) hbroken.1

/-- The page below the two of the stack, taken before the stack is mapped. -/
def crowding : List Call :=
  [.new .init ⟨0⟩, .on 0 (.mapAnonymous 0x7fffffffc000 .userRw), .on 0 .mapStack]

end Space

end Norx
