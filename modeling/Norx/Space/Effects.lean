import Norx.Paging.Ledger
import Norx.Space.Access
import Norx.Space.World

/-!
# What the Operations Do to a Space

One specification for each operation, of the record of the space only: which
checks an operation that succeeds has passed, and which fields each outcome
writes. What the frame allocator returns and what the paging code does to its
tables is left open, so these hold whatever state the two are in.

## Theorems

* `perform_change`: Each makes one of the changes.
-/

namespace Norx

namespace Space

open Fallible Slots

/-- The list of table frames is all that has changed. -/
def TablesOnly (space space' : AddressSpace) : Prop :=
  ∃ tables, space' = { space with tableFrames := tables }

/-- A page has been mapped. -/
structure Mapped (target : Machine) (virtualAddress : Nat) (flags : PageFlags) (kind : MappingKind)
    (space : AddressSpace) (mapping : MappingInfo) (space' : AddressSpace) : Prop where
  live : space.rootFrame ≠ none
  flagsOk : flags.validate = .ok ()
  pageOk : validatePage target virtualAddress = .ok ()
  notGuard : ¬ (space.stackGuard = some virtualAddress ∧ kind ≠ .stack)
  free : space.mappings.any (mapsPage virtualAddress) = false
  address : mapping.virtualAddress = virtualAddress
  flags : mapping.flags = flags
  kind : mapping.kind = kind
  filled : ∃ slot, space.mappings.position Option.isNone = some slot ∧
    TablesOnly (space.setMapping slot (some mapping)) space'

/-- A page has been taken out. -/
def Unmapped (virtualAddress : Nat) (space space' : AddressSpace) : Prop :=
  ∃ slot, space.mappings.position (mapsPage virtualAddress) = some slot ∧
    space' = space.setMapping slot none

theorem tablesOnly_refl (space : AddressSpace) : TablesOnly space space :=
  ⟨space.tableFrames, rfl⟩

theorem walker_orderly (target : Machine) :
    Paging.Orderly (walker target) (target = .x86_64) := by
  cases target with
  | x86_64 => exact (eq_true rfl : (Machine.x86_64 = .x86_64) = True) ▸ Paging.X86.orderly
  | aarch64 =>
    exact (eq_false Machine.noConfusion : (Machine.aarch64 = .x86_64) = False) ▸
      Paging.Aarch64.orderly

variable {root : UInt64} {mapping : MappingInfo} {virtualAddress : Nat}

section Rules


variable {e : Env} {E : Error → Env → Prop}

variable {Q : Bool → Env → Prop}

theorem wp_freeFrame_any {frame : UInt64} (hQ : ∀ given frames, Q given (e.setFrames frames)) :
    wp (freeFrame frame) Q E e := by
  unfold freeFrame
  exact hQ _ _

variable {target : Machine}

theorem wp_userSpaceMap_any (hQ : ∀ done s, Q done (e.setPaging s)) :
    wp (userSpaceMap target root mapping) Q E e := by
  unfold userSpaceMap
  rw [wp_succeeds, wp_within]
  unfold wp
  rcases (walker target).userSpaceMap root mapping e.paging with ⟨_ | _, s⟩
  · exact hQ false s
  · exact hQ true s

theorem wp_userSpaceUnmap_any (hQ : ∀ done hardware, Q done (e.setHardware hardware)) :
    wp (userSpaceUnmap target root virtualAddress) Q E e := by
  unfold userSpaceUnmap
  rw [wp_succeeds, wp_within]
  have hsame (s : Paging.State) (hs : Paging.SameFrames e.paging s) :
      e.setPaging s = e.setHardware s.hardware := by
    rcases hs with ⟨hframes, htables⟩
    simp only [Env.setPaging, hframes, htables]
    rfl
  refine wp_mono (Paging.userSpaceUnmap_frames (walker_orderly target) e.paging root
    virtualAddress) (fun _ s hs => ?_) fun _ s hs => ?_
  · rw [hsame s hs]
    exact hQ true s.hardware
  · rw [hsame s hs]
    exact hQ false s.hardware

end Rules

/-! ### Mapping -/

variable {space : AddressSpace} {E : Error → Env → Prop} {Q : Unit → Env → Prop}

section

variable {target : Machine} {e : Env}

/-- The record `map_stack` and `grow_stack` leave, with so many stack pages from
    `bottom` on. -/
def AddressSpace.guarded (space : AddressSpace) (pages bottom : Nat) : AddressSpace :=
  { space with stackPages := pages
               stackGuard := if bottom < pageSize then none else some (bottom - pageSize) }

/-- A slot filled and emptied again. -/
theorem setMapping_undo {slot : Nat} (hslot : space.mappings.position Option.isNone = some slot)
    {tables : Tables} :
    ({ space.setMapping slot (some mapping) with tableFrames := tables }).setMapping slot none =
      { space with tableFrames := tables } := by
  have hnone : space.mappings.get slot = none :=
    Option.isNone_iff_eq_none.mp (position_eq_some.mp hslot).2.1
  have hback : (space.mappings.set slot (some mapping)).set slot none = space.mappings := by
    rw [set_set, ← hnone, set_get]
  simp only [AddressSpace.setMapping, hback]

/-- A page has been entered in the list, on the frame the allocator hands out. -/
def Env.added (target : Machine) (e : Env) (slot : Nat) (mapping : MappingInfo) : Env :=
  ((e.setFrames e.frames.take.2).setHardware
    (zeroFrame target mapping.physicalFrame e.hardware).2).setMapping slot (some mapping)

variable {kind : MappingKind} {flags : PageFlags}

/-- Mapping a page: what an inactive space is left with, and what is left to do with
    the tables of an active one. -/
theorem wp_mapPage
    {Q : MappingInfo → Env → Prop} (hfail : ∀ error, E error e)
    (hnone : e.frames.take.1 = none → E .noFrames (e.setFrames e.frames.take.2))
    (hsome : ∀ slot mapping root, e.space.rootFrame = some root →
      e.space.mappings.position Option.isNone = some slot →
      e.frames.take.1 = some mapping.physicalFrame →
      (∀ space', TablesOnly (e.space.setMapping slot (some mapping)) space' →
        Mapped target virtualAddress flags kind e.space mapping space') →
      (e.space.active = false → Q mapping (e.added target slot mapping)) ∧
      (e.space.active = true → wp (userSpaceMap target root mapping)
        (fun done e₁ => (done = true → Q mapping e₁) ∧
          (done = false → wp (freeFrame mapping.physicalFrame) (fun _ => E .hardwareMapping) E
            (e₁.setMapping slot none))) E (e.added target slot mapping))) :
    wp (mapPage target virtualAddress flags kind) Q E e := by
  unfold mapPage allocFrame
  simp only [wp_bind, wp_read, wp_ite, wp_fail, wp_pure, wp_lift]
  refine ⟨fun _ => hfail _, fun hlive => ⟨fun _ hflags => ⟨fun _ hpage => ⟨fun _ => hfail _,
    fun hguard => ⟨fun _ => hfail _, fun hfree => ?_⟩⟩, fun _ _ => hfail _⟩, fun _ _ => hfail _⟩⟩
  simp only [wp_lookup, wp_within, wp_act, zeroPhysicalPage, wp_modify]
  refine ⟨fun slot hslot => ⟨fun frame hframe => ?_, hnone⟩, fun _ => hfail _⟩
  obtain ⟨root, hroot⟩ := Option.ne_none_iff_exists'.mp hlive
  rcases hsome slot { virtualAddress, physicalFrame := frame, flags, kind } root hroot hslot hframe
    fun _ hspace => ⟨hlive, hflags, hpage, hguard, Bool.not_eq_true _ ▸ hfree, rfl, rfl, rfl, slot,
      hslot, hspace⟩ with ⟨hoff, hon⟩
  refine ⟨fun hactive => ⟨fun root' hroot' => ?_, fun hnone => absurd hnone hlive⟩, fun hinactive =>
    hoff (Bool.not_eq_true _ ▸ hinactive)⟩
  have hsame : root = root' := Option.some.inj (hroot.symm.trans hroot')
  subst hsame
  refine wp_post (hon hactive) (fun done e₁ h₁ => ⟨h₁.2, fun hdone => h₁.1 ?_⟩)
  exact Bool.not_eq_false _ ▸ hdone

theorem mapPage_effect (virtualAddress : Nat) (flags : PageFlags) (kind : MappingKind) :
    wp (mapPage target virtualAddress flags kind)
      (fun mapping e' => Mapped target virtualAddress flags kind e.space mapping e'.space)
      (fun _ e' => TablesOnly e.space e'.space) e := by
  refine wp_mapPage (fun _ => tablesOnly_refl _) (fun _ => tablesOnly_refl _)
    fun slot mapping root hroot hslot _ hmapped => ⟨fun _ => hmapped _ (tablesOnly_refl _), fun _ => ?_⟩
  refine wp_userSpaceMap_any fun done s => ⟨fun _ => hmapped _ ⟨s.tables, rfl⟩, fun _ => ?_⟩
  exact wp_freeFrame_any fun given frames => ⟨s.tables, setMapping_undo hslot⟩

/-- Taking a page out: the frame is given back, or the page is put back. -/
theorem wp_removeMapping
    (hfail : ∀ error hardware, E error (e.setHardware hardware))
    (hfree : ∀ slot mapping hardware, e.space.mappings.position (mapsPage virtualAddress) = some slot →
      e.space.mappings.get slot = some mapping →
      wp (freeFrame mapping.physicalFrame)
        (fun given e₁ => (given = false → E .frameReturn (e₁.setMapping slot (some mapping))) ∧
          (¬ given = false → Q () e₁)) E ((e.setHardware hardware).setMapping slot none)) :
    wp (removeMapping target virtualAddress) Q E e := by
  unfold removeMapping
  simp only [wp_bind, wp_read, wp_ite, wp_pure, wp_lookup, wp_modify, wp_fail]
  refine ⟨fun slot hslot => ⟨fun _ => ⟨fun root _ => ?_, fun _ => hfail _ e.hardware⟩, fun _ =>
    ⟨fun mapping hget => hfree slot mapping e.hardware hslot hget, fun _ => hfail _ e.hardware⟩⟩,
    fun _ => hfail _ e.hardware⟩
  refine wp_userSpaceUnmap_any fun taken hardware => ⟨fun _ => hfail _ hardware, fun _ =>
    ⟨fun mapping hget => hfree slot mapping hardware hslot hget, fun _ => hfail _ hardware⟩⟩

/-- A page that is put back is where it was. -/
theorem setMapping_back {slot : Nat} (hget : space.mappings.get slot = some mapping) :
    (space.setMapping slot none).setMapping slot (some mapping) = space := by
  rw [← hget]
  simp only [AddressSpace.setMapping, set_set, set_get]

theorem removeMapping_effect (virtualAddress : Nat) :
    wp (removeMapping target virtualAddress)
      (fun _ e' => Unmapped virtualAddress e.space e'.space)
      (fun _ e' => e'.space = e.space) e := by
  refine wp_removeMapping (fun _ _ => rfl) fun slot mapping hardware hslot hget => ?_
  exact wp_freeFrame_any fun given frames => ⟨fun _ => setMapping_back hget, fun _ =>
    ⟨slot, hslot, rfl⟩⟩

variable {space₁ space₂ : AddressSpace}

/-- A page that was mapped and taken out again. -/
theorem unmapped_of_mapped (hmapped : Mapped target virtualAddress flags kind space mapping space₁)
    {space₁' : AddressSpace} (htables : TablesOnly space₁ space₁')
    (hunmapped : Unmapped virtualAddress space₁' space₂) : TablesOnly space space₂ := by
  rcases hmapped.filled with ⟨slot, hslot, tables, rfl⟩
  rcases htables with ⟨tables', rfl⟩
  rcases hunmapped with ⟨slot', hslot', rfl⟩
  rcases position_eq_some.mp hslot' with ⟨hlt', hmaps, _⟩
  have hsame : slot' = slot := by
    -- No other slot holds the page, for there was none before.
    by_contra hne
    have hbefore := any_eq_false.mp hmapped.free slot' hlt'
    change mapsPage virtualAddress ((space.mappings.set slot (some mapping)).get slot') = true
      at hmaps
    rw [get_set_other _ _ hne, hbefore] at hmaps
    exact Bool.false_ne_true hmaps
  rw [hsame]
  exact ⟨tables', setMapping_undo hslot⟩

/-- A page of the stack: if it cannot be mapped, the pages before it are taken
    back. -/
theorem wp_mapStackPage {first index : Nat} {I : Env → Prop}
    (hmap : wp (mapPage target (first + index * pageSize) PageFlags.userRw .stack) (fun _ => Q ())
      (fun _ => I) e)
    (hback : ∀ e rollback, I e → wp (removeMapping target (first + rollback * pageSize)) (fun _ => I)
      (fun _ => I) e)
    (hfail : ∀ error e, I e → E error e) : wp (mapStackPage target first index) Q E e := by
  unfold mapStackPage
  rw [wp_bind, wp_attempt]
  refine wp_mono hmap (fun _ _ h => h) fun error e' he' => ?_
  simp
  refine wp_post (wp_forM (fun _ => I) (fun rollback _ e₁ h₁ => ?_) (List.range index) e' he')
    fun _ e₁ h₁ => hfail error e₁ h₁
  rw [wp_bind, wp_attempt]
  exact hback e₁ rollback h₁

/-- The stack: two pages are mapped, and the guard is set below them. -/
theorem wp_mapStack (hfail : ∀ error, E error e)
    (hpages : ∀ first, e.space.stackPages = 0 → e.space.rootFrame ≠ none →
      first + initialStackPages * pageSize = e.space.stackTop →
      wp (mapStackPage target first 0) (fun _ => wp (mapStackPage target first 1) (fun _ e₂ =>
        Q () (e₂.setSpace (e₂.space.guarded initialStackPages first))) E) E e) :
    wp (mapStack target) Q E e := by
  unfold mapStack
  simp only [wp_bind, wp_read, wp_ite, wp_fail]
  refine ⟨fun _ => hfail _, fun hstate => ⟨fun _ => hfail _, fun htop => ?_⟩⟩
  rw [not_or, not_not] at hstate
  have hrange : List.range initialStackPages = [0, 1] := rfl
  rw [hrange]
  change wp (mapStackPage target _ 0 >>= fun _ => mapStackPage target _ 1 >>= fun _ =>
    pure PUnit.unit) _ _ e
  simp only [wp_bind, wp_pure, wp_modify]
  exact hpages _ hstate.1 hstate.2 (by omega)

/-- The first page of the stack: there is nothing to take back. -/
theorem mapStackPage_first (first : Nat) :
    wp (mapStackPage target first 0)
      (fun _ e' => ∃ mapping,
        Mapped target first PageFlags.userRw .stack e.space mapping e'.space)
      (fun _ e' => TablesOnly e.space e'.space) e := by
  unfold mapStackPage
  rw [wp_bind, wp_attempt, Nat.zero_mul]
  refine wp_mono (mapPage_effect first PageFlags.userRw .stack) (fun mapping e' h => ?_)
    fun _ e' h => ?_
  · exact ⟨mapping, h⟩
  · exact h

/-- The second one: the first is taken back, if it can be. -/
theorem mapStackPage_second (first : Nat)
    (hfirst : Mapped target first flags kind space mapping e.space) :
    wp (mapStackPage target first 1)
      (fun _ e' => ∃ mapping',
        Mapped target (first + pageSize) PageFlags.userRw .stack e.space mapping' e'.space)
      (fun _ e' => TablesOnly space e'.space ∨ TablesOnly e.space e'.space) e := by
  unfold mapStackPage
  rw [wp_bind, wp_attempt]
  refine wp_mono (mapPage_effect (first + pageSize) PageFlags.userRw .stack)
    (fun mapping' e' h => ⟨mapping', h⟩) fun error e₁ h₁ => ?_
  have hrange : List.range 1 = [0] := rfl
  simp only [hrange, wp_bind]
  change wp ((attempt (removeMapping target (first + 0 * pageSize)) >>= fun _ => pure ()) >>=
    fun _ => pure PUnit.unit) _ _ e₁
  rw [wp_bind, wp_bind, wp_attempt, Nat.zero_mul]
  refine wp_mono (removeMapping_effect first) (fun _ e₂ h₂ => ?_) fun _ e₂ h₂ => ?_
  · exact .inl (unmapped_of_mapped hfirst h₁ h₂)
  · refine .inr ?_
    rw [h₂]
    exact h₁

/-- The stack is mapped from its first page up, and if the second one cannot be
    mapped the first one is taken back, if it can be. -/
theorem mapStack_effect :
    wp (mapStack target)
      (fun _ e' => e.space.stackPages = 0 ∧ initialStackPages * pageSize ≤ e.space.stackTop ∧
        ∃ first mapping space₁ mapping' space₂,
          first + initialStackPages * pageSize = e.space.stackTop ∧
          Mapped target first PageFlags.userRw .stack e.space mapping space₁ ∧
          Mapped target (first + pageSize) PageFlags.userRw .stack space₁ mapping' space₂ ∧
          e'.space = { space₂ with
            stackPages := initialStackPages
            stackGuard := if first < pageSize then none else some (first - pageSize) })
      (fun _ e' => TablesOnly e.space e'.space ∨
        ∃ first mapping space₁, e.space.stackPages = 0 ∧
          Mapped target first PageFlags.userRw .stack e.space mapping space₁ ∧
          TablesOnly space₁ e'.space) e := by
  refine wp_mapStack (fun _ => .inl (tablesOnly_refl _)) fun first hpages _ htop => ?_
  refine wp_mono (mapStackPage_first first) (fun _ e₁ h₁ => ?_) fun _ e' h => .inl h
  rcases h₁ with ⟨mapping, h₁⟩
  refine wp_mono (mapStackPage_second first h₁) (fun _ e₂ h₂ => ?_) fun _ e' h => ?_
  · rcases h₂ with ⟨mapping', h₂⟩
    exact ⟨hpages, by omega, first, mapping, e₁.space, mapping', e₂.space, htop, h₁, h₂, rfl⟩
  · rcases h with h | h
    · exact .inl h
    · exact .inr ⟨first, mapping, e₁.space, hpages, h₁, h⟩

theorem growStack_effect (faultAddress : Nat) :
    wp (growStack target faultAddress)
      (fun grown e' => (grown = false ∧ e'.space = e.space) ∨
        (grown = true ∧ ∃ guard_ mapping space₁, e.space.stackGuard = some guard_ ∧
          e.space.stackPages ≠ maxStackPages ∧
          Mapped target guard_ PageFlags.userRw .stack e.space mapping space₁ ∧
          e'.space = { space₁ with
            stackPages := space₁.stackPages + 1
            stackGuard := if guard_ < pageSize then none else some (guard_ - pageSize) }))
      (fun _ e' => TablesOnly e.space e'.space) e := by
  unfold growStack
  rw [wp_bind, wp_read]
  cases hguard : e.space.stackGuard with
  | none => exact .inl ⟨rfl, rfl⟩
  | some guard_ =>
    simp only [wp_bind, wp_ite, wp_read, wp_pure]
    refine ⟨fun _ => .inl ⟨trivial, trivial⟩,
      fun _ => ⟨fun _ => .inl ⟨trivial, trivial⟩, fun hmax => ?_⟩⟩
    refine wp_post (mapPage_effect guard_ PageFlags.userRw .stack)
      (fun mapping e' hmapped => ?_)
    simp only [wp_modify]
    exact .inr ⟨trivial, guard_, mapping, e'.space, rfl, hmax, hmapped, rfl⟩

/-! ### Taking back -/

theorem unmapPage_effect (virtualAddress : Nat) :
    wp (unmapPage target virtualAddress)
      (fun _ e' => (∃ mapping, e.space.mapping virtualAddress = some mapping ∧
        mapping.kind = .anonymous) ∧ Unmapped virtualAddress e.space e'.space)
      (fun _ e' => e'.space = e.space) e := by
  unfold unmapPage
  simp only [wp_bind, wp_lookup, wp_ite, wp_fail]
  refine ⟨fun mapping hmapping => ⟨fun _ => trivial, fun hkind => ?_⟩, fun _ => trivial⟩
  refine wp_post (removeMapping_effect virtualAddress) (fun _ e' h => ⟨⟨mapping, hmapping, ?_⟩, h⟩)
  cases hk : mapping.kind with
  | anonymous => rfl
  | stack => exact absurd hk hkind

/-- The record without its table frames. -/
def AddressSpace.bare (space : AddressSpace) : AddressSpace :=
  { space with tableFrames := Slots.replicate maxTableFrames none }

/-- The record without its pages. -/
def AddressSpace.cleared (space : AddressSpace) : AddressSpace :=
  { space with mappings := Slots.replicate maxMappings none }

theorem freeAll_effect {Q : PUnit → Env → Prop} (frames : List UInt64)
    (hQ : ∀ held, Q ⟨⟩ (e.setFrames held)) :
    wp (frames.forM fun frame => do let _ ← freeFrame frame) Q E e := by
  refine wp_post (wp_forM (E := E) (fun _ e' => ∃ held, e' = e.setFrames held)
    (fun frame _ e' he' => ?_) frames e ⟨e.frames, rfl⟩) (fun _ e' he' => ?_)
  · rcases he' with ⟨held, rfl⟩
    rw [wp_bind]
    exact wp_freeFrame_any fun _ held' => ⟨held', rfl⟩
  · rcases he' with ⟨held, rfl⟩
    exact hQ held

theorem releaseTableFrames_effect (hQ : ∀ held, Q () ((e.setSpace e.space.bare).setFrames held)) :
    wp releaseTableFrames Q E e := by
  unfold releaseTableFrames
  exact freeAll_effect _ hQ

/-- The record of a space that is being destroyed, with its pages and tables
    gone. -/
def AddressSpace.emptied (space : AddressSpace) : AddressSpace :=
  { space with active := false, mappings := Slots.replicate maxMappings none, rootFrame := none,
               tableFrames := Slots.replicate maxTableFrames none }

theorem deactivate_effect
    (hQ : ∀ hardware, Q () ((e.setSpace { e.space with active := false }).setHardware hardware)) :
    wp (deactivate target root) Q E e := by
  unfold deactivate userSpaceReset
  simp only [wp_bind, wp_read, wp_ite, wp_modify, wp_pure]
  refine ⟨fun _ => hQ _, fun hactive => ?_⟩
  have hsame : (e.setSpace { e.space with active := false }).setHardware e.hardware = e := by
    rw [Bool.not_eq_true] at hactive
    rw [← hactive]
    rfl
  have hkept := hQ e.hardware
  rwa [hsame] at hkept

theorem releasePages_effect (hQ : ∀ held, Q () ((e.setSpace e.space.cleared).setFrames held))
    (hE : ∀ held, E .frameReturn (e.setFrames held)) : wp releasePages Q E e := by
  unfold releasePages
  rw [wp_bind, wp_read, wp_bind]
  refine wp_post (wp_forM (E := E) (fun _ e' => ∃ held, e' = e.setFrames held)
    (fun mapping _ e' he' => ?_) e.space.mappings.entries e ⟨e.frames, rfl⟩) (fun _ e' he' => ?_)
  · rcases he' with ⟨held, rfl⟩
    simp
    exact wp_freeFrame_any fun _ held' => ⟨fun _ => hE held', fun _ => ⟨held', rfl⟩⟩
  · rcases he' with ⟨held, rfl⟩
    exact hQ held

theorem releaseRoot_effect (hroot : e.space.rootFrame = some root)
    (hQ : ∀ held, Q () ((e.setSpace { e.space with rootFrame := none }).setFrames held))
    (hE : ∀ held, E .frameReturn ((e.setSpace { e.space with rootFrame := none }).setFrames held)) :
    wp releaseRoot Q E e := by
  unfold releaseRoot
  simp
  refine ⟨fun _ _ => ?_, fun hnone => absurd hnone (by rw [hroot]; exact Option.some_ne_none _)⟩
  exact wp_freeFrame_any fun _ held => ⟨fun _ => hE held, fun _ => hQ held⟩

theorem destroy_effect :
    wp (destroy target)
      (fun _ e' => e'.space = { e.space.emptied with owner := none, stackGuard := none,
                                                     stackPages := 0 })
      (fun _ e' => e'.space = e.space ∨ e'.space = { e.space with active := false } ∨
        e'.space = e.space.emptied) e := by
  unfold destroy
  rw [wp_bind, wp_lookup]
  refine ⟨fun root hroot => ?_, fun _ => .inl rfl⟩
  rw [wp_bind]
  refine deactivate_effect fun hardware => ?_
  simp only [wp_bind, wp_read, wp_ite, wp_fail]
  refine ⟨fun _ => .inr (.inl rfl), fun _ => ?_⟩
  refine releasePages_effect (fun held => ?_) fun held => .inr (.inl rfl)
  refine releaseTableFrames_effect fun held' => ?_
  refine releaseRoot_effect hroot (fun held'' => ?_) fun held'' => ?_
  · rfl
  · exact .inr (.inr rfl)

/-! ### The hardware's tables, and filling pages -/

theorem enterMapping_effect :
    wp (enterMapping target root mapping) (fun _ e' => TablesOnly e.space e'.space)
      (fun _ e' => TablesOnly e.space e'.space) e := by
  unfold enterMapping userSpaceReset
  simp
  refine wp_userSpaceMap_any fun done s => ⟨fun _ => ?_, fun _ => ⟨s.tables, rfl⟩⟩
  exact releaseTableFrames_effect fun held => ⟨_, rfl⟩

theorem tablesOnly_trans (h : TablesOnly space space₁) (h' : TablesOnly space₁ space₂) :
    TablesOnly space space₂ := by
  rcases h with ⟨tables, rfl⟩
  rcases h' with ⟨tables', rfl⟩
  exact ⟨tables', rfl⟩

theorem activate_effect :
    wp (activate target)
      (fun _ e' => e.space.rootFrame ≠ none ∧ TablesOnly { e.space with active := true } e'.space)
      (fun _ e' => TablesOnly e.space e'.space) e := by
  unfold activate
  rw [wp_bind, wp_lookup]
  refine ⟨fun root hroot => ?_, fun _ => tablesOnly_refl _⟩
  simp [userSpacePrepare]
  refine ⟨fun _ => tablesOnly_refl _, fun _ => ⟨fun _ => tablesOnly_refl _, fun _ => ?_⟩⟩
  refine wp_mono (wp_forM (E := fun _ e' => TablesOnly e.space e'.space)
    (fun _ e' => TablesOnly e.space e'.space)
    (fun mapping _ e' he' => ?_) _ _ (tablesOnly_refl _)) (fun _ e' he' => ?_) fun _ _ h => h
  · exact wp_mono enterMapping_effect (fun _ _ h => tablesOnly_trans he' h)
      fun _ _ h => tablesOnly_trans he' h
  · rcases he' with ⟨tables, htables⟩
    refine ⟨by rw [hroot]; exact Option.some_ne_none _, tables, ?_⟩
    change { e'.space with active := true } = _
    rw [htables]

theorem load_effect (virtualAddress : Nat) (bytes : List UInt8) :
    wp (load target virtualAddress bytes) (fun _ => HardwareOnly e) (fun _ => HardwareOnly e) e :=
  wp_mono (load_copied virtualAddress bytes) (fun _ _ h => h.hardwareOnly) fun _ _ h => h.1

theorem loadWords_effect (virtualAddress : Nat) (words : List UInt64) :
    wp (loadWords target virtualAddress words) (fun _ => HardwareOnly e) (fun _ => HardwareOnly e)
      e :=
  wp_mono (loadWords_copied virtualAddress words) (fun _ _ h => h.hardwareOnly) fun _ _ h => h.1

theorem store_effect (address : Nat) (byte : UInt8) :
    wp (store address byte) (fun _ => HardwareOnly e) (fun _ => HardwareOnly e) e := by
  unfold store
  simp
  exact ⟨fun _ _ => ⟨fun _ => ⟨e.hardware, rfl⟩, fun _ => ⟨_, rfl⟩⟩, fun _ => ⟨e.hardware, rfl⟩⟩

/-! ### Every operation -/

/-- What an operation can do to the record of a space, with what it has checked
    by then. -/
inductive Change (target : Machine) (space : AddressSpace) : AddressSpace → Prop
  /-- The operation failed early, or left the record alone. -/
  | tables {space' : AddressSpace} (h : TablesOnly space space') : Change target space space'
  | mapped {virtualAddress : Nat} {flags : PageFlags} {mapping : MappingInfo}
      {space' : AddressSpace}
      (h : Mapped target virtualAddress flags .anonymous space mapping space') :
      Change target space space'
  | unmapped {virtualAddress : Nat} {mapping : MappingInfo} {space' : AddressSpace}
      (hmapping : space.mapping virtualAddress = some mapping) (hkind : mapping.kind = .anonymous)
      (h : Unmapped virtualAddress space space') : Change target space space'
  | stack {first : Nat} {mapping mapping' : MappingInfo} {space₁ space₂ : AddressSpace}
      (hnew : space.stackPages = 0) (htop : first + initialStackPages * pageSize = space.stackTop)
      (h₁ : Mapped target first PageFlags.userRw .stack space mapping space₁)
      (h₂ : Mapped target (first + pageSize) PageFlags.userRw .stack space₁ mapping' space₂) :
      Change target space { space₂ with
        stackPages := initialStackPages
        stackGuard := if first < pageSize then none else some (first - pageSize) }
  /-- `map_stack` failed and could not take its first page back. -/
  | torn {first : Nat} {mapping : MappingInfo} {space₁ space' : AddressSpace}
      (hnew : space.stackPages = 0)
      (h : Mapped target first PageFlags.userRw .stack space mapping space₁)
      (htables : TablesOnly space₁ space') : Change target space space'
  | grown {guard_ : Nat} {mapping : MappingInfo} {space₁ : AddressSpace}
      (hguard : space.stackGuard = some guard_) (hmore : space.stackPages ≠ maxStackPages)
      (h : Mapped target guard_ PageFlags.userRw .stack space mapping space₁) :
      Change target space { space₁ with
        stackPages := space₁.stackPages + 1
        stackGuard := if guard_ < pageSize then none else some (guard_ - pageSize) }
  | activated {space' : AddressSpace} (hlive : space.rootFrame ≠ none)
      (h : TablesOnly { space with active := true } space') : Change target space space'
  /-- `destroy` was refused a page. -/
  | stopped : Change target space { space with active := false }
  /-- `destroy` was refused the root. -/
  | emptied : Change target space space.emptied
  | destroyed : Change target space
      { space.emptied with owner := none, stackGuard := none, stackPages := 0 }

theorem HardwareOnly.change {e e' : Env} (h : HardwareOnly e e') :
    Change target e.space e'.space := by
  rcases h with ⟨hardware, rfl⟩
  exact .tables (tablesOnly_refl _)

theorem perform_change (target : Machine) (call : SpaceCall) (e : Env) :
    Change target e.space (perform target call e).2.space := by
  refine of_wp (P := fun e' : Env => Change target e.space e'.space) ?_
  cases call with
  | mapAnonymous virtualAddress flags =>
    exact (wp_bind _ _ _ _ _).mpr (wp_mono (mapPage_effect virtualAddress flags .anonymous)
      (fun _ _ h => .mapped h) fun _ _ h => .tables h)
  | mapStack =>
    refine wp_mono mapStack_effect (fun _ e' he' => ?_) fun _ e' he' => ?_
    · rcases he' with ⟨hnew, _, _, _, _, _, _, htop, h₁, h₂, hspace⟩
      rw [hspace]
      exact .stack hnew htop h₁ h₂
    · rcases he' with h | ⟨_, _, _, hnew, h, htables⟩
      · exact .tables h
      · exact .torn hnew h htables
  | growStack faultAddress =>
    refine (wp_bind _ _ _ _ _).mpr (wp_mono (growStack_effect faultAddress)
      (fun _ e' he' => ?_) fun _ _ h => .tables h)
    change Change target e.space e'.space
    rcases he' with ⟨_, hspace⟩ | ⟨_, _, _, _, hguard, hmore, h, hspace⟩
    · rw [hspace]
      exact .tables (tablesOnly_refl _)
    · rw [hspace]
      exact .grown hguard hmore h
  | unmapPage virtualAddress =>
    refine wp_mono (unmapPage_effect virtualAddress) (fun _ e' he' => ?_) fun _ e' he' => ?_
    · rcases he' with ⟨⟨mapping, hmapping, hkind⟩, h⟩
      exact .unmapped hmapping hkind h
    · rw [he']
      exact .tables (tablesOnly_refl _)
  | activate =>
    exact wp_mono activate_effect (fun _ _ h => .activated h.1 h.2) fun _ _ h => .tables h
  | destroy =>
    refine wp_mono destroy_effect (fun _ e' he' => ?_) fun _ e' he' => ?_
    · rw [he']
      exact .destroyed
    · rcases he' with he' | he' | he'
      · rw [he']
        exact .tables (tablesOnly_refl _)
      · rw [he']
        exact .stopped
      · rw [he']
        exact .emptied
  | load virtualAddress bytes =>
    exact wp_mono (load_effect virtualAddress bytes) (fun _ _ h => h.change)
      fun _ _ h => h.change
  | loadWords virtualAddress words =>
    exact wp_mono (loadWords_effect virtualAddress words) (fun _ _ h => h.change)
      fun _ _ h => h.change
  | store address byte =>
    exact wp_mono (store_effect address byte) (fun _ _ h => h.change) fun _ _ h => h.change

end

end Space

end Norx
