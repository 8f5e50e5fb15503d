import Norx.UserRuntime.Lost

/-!
# The Stack in Memory

The stack builder makes two things: the words of the stack, and the texts they
point to. Only the words are copied to memory. The page they are on is fresh, so
it holds zero where the texts should be. A program therefore finds the number of
its arguments and pointers to them, and each argument it looks at is the empty
text.

All of this is on one page, the last of the stack, so it does not matter what the
other pages are or which frames they have.

## Theorems

* `prepareSpace_written`: A program that is prepared only takes frames, and its words
  are in memory.
* `initial_stack`: What a program finds: the words, and texts only if all of them
  are empty.
* `argument_lost`: A program with one argument.
-/

namespace Norx

namespace UserRuntime

open Fallible Space Memory Elf List

variable {target : Machine} {e : Env}

/-! ### Copying within one page -/

section OnPage

variable {page : Nat} {mapping : MappingInfo}

/-- Bytes have been written to the frame of a page in reach. -/
def OnPage (target : Machine) (mapping : MappingInfo) (offset : Nat) (bytes : List UInt8)
    (e e' : Env) : Prop :=
  e' = e.setHardware (patch e.hardware mapping.physicalFrame offset bytes) ∧
    Addressable target e.hardware mapping.physicalFrame

/-- What has been copied to one page. -/
theorem onPage_copied {address : Nat} {bytes : List UInt8} {e' : Env}
    (h : Copied target address bytes e e') (hmapping : e.space.mapping page = some mapping)
    (haligned : page % 4096 = 0) (hlow : page ≤ address)
    (hhigh : address + bytes.length ≤ page + 4096) (hsome : bytes ≠ []) :
    OnPage target mapping (address - page) bytes e e' := by
  induction h with
  | nil => exact absurd rfl hsome
  | @cons address byte bytes e e' found hfound hreach rest ih =>
    rw [length_cons] at hhigh
    have hpage : pageOf address = page := pageOf_eq haligned hlow (by omega)
    rw [hpage] at hfound rest ih
    obtain rfl : found = mapping := Option.some.inj (hfound.symm.trans hmapping)
    by_cases hnil : bytes = []
    · subst hnil
      cases rest
      exact ⟨rfl, hreach⟩
    · rcases ih hmapping (by omega) (by omega) hnil with ⟨rfl, -⟩
      refine ⟨?_, hreach⟩
      rw [show address + 1 - page = address - page + 1 by omega]
      exact congrArg e.setHardware (patch_append (address - page) [byte] bytes)

end OnPage

/-! ### A space in the making -/

/-- A space that is not active, with its stack at the end of the user half. The
    allocator meets a condition too, one that taking a frame keeps. -/
structure Unused (target : Machine) (P : Held → Prop) (e : Env) : Prop where
  inactive : e.space.active = false
  pages : PagesOk target e.space
  top : e.space.stackTop + pageSize = userLimit target
  frames : P e.frames

theorem wp_orDestroy_ok {α : Type} {x : RuntimeM α} {Q : α → Env → Prop}
    (hx : wp x Q (fun _ _ => True) e) : wp (orDestroy target x) Q (fun _ _ => True) e := by
  unfold orDestroy
  rw [wp_bind, wp_attempt]
  refine wp_mono hx (fun _ _ h => h) fun error e' _ => ?_
  simp
  exact wp_true

/-- The last page of the stack is there, and zero if its frame is in reach. -/
def Blank (target : Machine) (page : Nat) (mapping : MappingInfo) (e : Env) : Prop :=
  page + 2 * pageSize = userLimit target ∧ e.space.mapping page = some mapping ∧
    (Addressable target e.hardware mapping.physicalFrame →
      ∀ i < 4096, e.hardware.memory (mapping.physicalFrame.toNat + i) = 0)

/-- Setting the guard changes neither the page nor the allocator. -/
theorem Blank.guarded {P : Held → Prop} {page : Nat} {mapping : MappingInfo} (hP : P e.frames)
    (h : Blank target page mapping e) (pages bottom : Nat) :
    P (e.setSpace (e.space.guarded pages bottom)).frames ∧
      ∃ page mapping, Blank target page mapping (e.setSpace (e.space.guarded pages bottom)) :=
  ⟨hP, page, mapping, h⟩

section Making

variable {P : Held → Prop}

theorem Unused.hardwareOnly {e' : Env} (h : Unused target P e) (honly : HardwareOnly e e') :
    Unused target P e' := by
  rcases honly with ⟨hardware, rfl⟩
  exact ⟨h.inactive, h.pages, h.top, h.frames⟩

variable (hP : ∀ held, P held → P held.take.2)

include hP

/-- A page added to it is fresh. -/
theorem mapPage_unused (h : Unused target P e) (virtualAddress : Nat) (flags : PageFlags)
    (kind : MappingKind) :
    wp (mapPage target virtualAddress flags kind)
      (fun mapping e' => Unused target P e' ∧ e'.space.mapping virtualAddress = some mapping ∧
        e'.hardware = (zeroFrame target mapping.physicalFrame e.hardware).2)
      (fun _ _ => True) e := by
  refine wp_mono (mapPage_off h.inactive virtualAddress flags kind) (fun mapping e' h' => ?_)
    fun _ _ _ => trivial
  rcases h' with ⟨hmapped, htake, hhardware, _, hactive⟩
  have hpages := hmapped.pagesOk h.pages
  refine ⟨⟨hactive.trans h.inactive, hpages, ?_, ?_⟩, ?_, hhardware⟩
  · rw [hmapped.fields.1]
    exact h.top
  · have hframes : e.frames.take.2 = e'.frames := congrArg Prod.snd htake
    rw [← hframes]
    exact hP _ h.frames
  · rw [mapping_eq_some_iff hpages.distinct, hmapped.entries.mem_iff]
    exact ⟨mem_cons_self, hmapped.address⟩

theorem unused_keeping : Keeping target (Unused target P) (fun _ => True) := by
  refine ⟨fun _ _ => trivial, fun _ _ => Unused.hardwareOnly, fun e page flags h => ?_⟩
  refine wp_orDestroy_ok ?_
  rw [onSpace, wp_mapError]
  exact wp_post (mapPage_unused hP h page flags .anonymous) fun _ _ h => h.1

theorem mapStack_unused (h : Unused target P e) :
    wp (mapStack target) (fun _ e' => P e'.frames ∧ ∃ page mapping, Blank target page mapping e')
      (fun _ _ => True) e := by
  have htop := h.top
  refine wp_mapStack (fun _ => trivial) fun first _ _ hfirst => ?_
  have hfirst : first + 2 * pageSize = e.space.stackTop := hfirst
  -- Only a page that was mapped leads on.
  have hpage {e : Env} (h : Unused target P e) (index : Nat) :
      wp (mapStackPage target first index) (fun _ e' => Unused target P e' ∧ ∃ mapping,
        e'.space.mapping (first + index * pageSize) = some mapping ∧
          e'.hardware = (zeroFrame target mapping.physicalFrame e.hardware).2)
        (fun _ _ => True) e := by
    refine wp_mapStackPage (I := fun _ => True) ?_ (fun _ _ _ => wp_true) fun _ _ _ => trivial
    exact wp_post (mapPage_unused hP h (first + index * pageSize) PageFlags.userRw .stack)
      fun mapping e' he' => ⟨he'.1, mapping, he'.2⟩
  refine wp_post (hpage h 0) (fun _ e₁ h₁ => ?_)
  refine wp_post (hpage h₁.1 1) (fun _ e₂ h₂ => ?_)
  rcases h₂ with ⟨h₂, mapping, hmapping, hhardware⟩
  have hblank : Blank target (first + 1 * pageSize) mapping e₂ := by
    refine ⟨by omega, hmapping, fun hreach i hi => ?_⟩
    rw [hhardware] at hreach ⊢
    rw [zeroFrame_addressable (addressable_of_ready (zeroFrame_ready _ _ _).symm hreach)]
    exact Store.fill_self _ (by omega) (by omega)
  exact hblank.guarded h₂.frames initialStackPages first

/-- The last page of the stack after the words have been copied to it. -/
structure Written (target : Machine) (stack : InitialStack) (e : Env) : Prop where
  words : ∀ i < 8 * stack.words.length,
    e.userByte (stack.stackPointer + i) = (wordBytes stack.words)[i]?
  zero : ∀ address, stack.stackPointer + 8 * stack.words.length ≤ address →
    address < userLimit target - pageSize → e.userByte address = some 0

/-- Preparing a space takes frames, and does nothing else to the allocator unless
    it fails. Where there is an image, the words of the stack are in memory. -/
theorem prepareSpace_written (h : Unused target P e) (file : Option (List UInt8)) (plan : LoadPlan)
    (arguments environment : List (List UInt8)) :
    wp (prepareSpace target file plan arguments environment)
      (fun result e' => P e'.frames ∧ (file.isSome → ∃ stack, plan.buildInitialStack target
          (userLimit target - pageSize) arguments environment = .ok stack ∧
        result.1 = stack.registers target plan.entry ∧ Written target stack e'))
      (fun _ _ => True) e := by
  have hsize : pageSize = 4096 := rfl
  have haligned : userLimit target % 4096 = 0 := by cases target <;> decide
  unfold prepareSpace
  rw [wp_bind]
  refine wp_post (prepareSegments_keeps (unused_keeping hP) file plan h) (fun heapNext e₁ h₁ => ?_)
  simp
  refine wp_orDestroy_ok ?_
  rw [onSpace, wp_mapError]
  refine wp_post (mapStack_unused hP h₁) (fun _ e₂ h₂ => ?_)
  rcases h₂ with ⟨htaken, page, mapping, htop, hmapping, hblank⟩
  refine wp_orDestroy_ok ?_
  rw [wp_mapError, wp_lift]
  refine ⟨fun stack hstack => ?_, fun _ _ => trivial⟩
  rcases build_bounds hstack with ⟨hlowest, hhighest, _⟩
  have hbytes : maxStackBytes = 4096 := rfl
  have hsome : stack.words ≠ [] := by
    rw [(build_placed hstack).1]
    exact cons_ne_nil _ _
  simp [onSpace]
  refine ⟨fun _ => ?_, fun hnone _ _ => ⟨htaken, fun hfile => ?_⟩⟩
  case refine_2 =>
    rw [hnone] at hfile
    cases hfile
  have hlen := wordBytes_length stack.words
  refine wp_mono (loadWords_copied _ _) (fun _ e₃ h₃ _ _ => ?_) fun _ _ _ => trivial
  rcases onPage_copied h₃ hmapping (by omega) (by omega) (by omega)
    (ne_nil_of_length_pos (by have := length_pos_iff.mpr hsome; omega)) with ⟨rfl, hreach⟩
  refine ⟨htaken, fun _ => ⟨stack, hstack, rfl, ?_⟩⟩
  have hpage (address : Nat) (hle : stack.stackPointer ≤ address)
      (hlt : address < userLimit target - pageSize) :
      pageOf address = page :=
    pageOf_eq (by omega) (by omega) (by omega)
  -- A byte of the page is a byte of its frame.
  have hbyte (address : Nat) (hle : stack.stackPointer ≤ address)
      (hlt : address < userLimit target - pageSize) :
      (e₂.setHardware (patch e₂.hardware mapping.physicalFrame
        (stack.stackPointer - page) (wordBytes stack.words))).userByte address =
          some (Store.write e₂.hardware.memory
            (mapping.physicalFrame.toNat + (stack.stackPointer - page)) (wordBytes stack.words)
            (mapping.physicalFrame.toNat + (address - page))) := by
    unfold Env.userByte
    rw [hpage address hle hlt]
    change (e₂.space.mapping _).map _ = _
    rw [hmapping]
    rfl
  refine ⟨fun i hi => ?_, fun address hle hlt => ?_⟩
  · rw [hbyte _ (by omega) (by omega)]
    have hindex : mapping.physicalFrame.toNat + (stack.stackPointer + i - page) =
        mapping.physicalFrame.toNat + (stack.stackPointer - page) + i := by omega
    rw [hindex, Store.write_self _ (by omega), List.getElem?_eq_getElem]
  · rw [hbyte address (by omega) hlt, Store.write_other _ (by omega)]
    exact congrArg some (hblank hreach _ (by omega))

end Making

/-! ### What the program finds -/

/-- The words a program should find: the number of its arguments, where they and
    the environment are, and the auxiliary vector. -/
def initialWords (target : Machine) (plan : LoadPlan) (arguments environment : List (List UInt8)) :
    List UInt64 :=
  let top := userLimit target - pageSize
  stackWords plan.entry ((addresses top arguments).map UInt64.ofNat)
    ((addresses (below top arguments) environment).map UInt64.ofNat)

/-- Each text is in memory at its address, with a zero after it. -/
def Texts (target : Machine) (strings : List (List UInt8)) (e : Env) : Prop :=
  ∀ place ∈ (addresses (userLimit target - pageSize) strings).zip strings,
    ∀ i ≤ place.2.length, e.userByte (place.1 + i) = (place.2 ++ [0])[i]?

/-- Where a page is zero, only empty texts are. -/
theorem texts_iff {strings : List (List UInt8)} (hnuls : ∀ string ∈ strings, 0 ∉ string)
    (hzero : ∀ place ∈ (addresses (userLimit target - pageSize) strings).zip strings,
      ∀ i ≤ place.2.length, e.userByte (place.1 + i) = some 0) :
    Texts target strings e ↔ ∀ string ∈ strings, string = [] := by
  refine ⟨fun h string hstring => ?_, fun h place hplace i hi => ?_⟩
  · obtain ⟨k, hk, rfl⟩ := mem_iff_getElem.mp hstring
    have hk' : k < ((addresses (userLimit target - pageSize) strings).zip strings).length := by
      rw [length_zip, addresses_length]
      omega
    have hplace := getElem_mem hk'
    rw [getElem_zip] at hplace
    -- The first byte of the text would be the zero that ends it.
    cases hstart : strings[k] with
    | nil => rfl
    | cons byte bytes =>
      have hfirst := h _ hplace 0 (Nat.zero_le _)
      rw [hzero _ hplace 0 (Nat.zero_le _)] at hfirst
      rw [hstart] at hfirst
      injection hfirst with hfirst
      refine absurd ?_ (hnuls _ hstring)
      rw [hstart, hfirst]
      exact mem_cons_self
  · have hnil := h place.2 (of_mem_zip hplace).2
    rw [hzero place hplace i hi]
    rw [hnil] at hi ⊢
    rw [Nat.le_zero.mp hi]
    rfl

/-- The stack page of a program prepared from an image. -/
theorem prepareImage_written {w w' : World} {owner : Process.ProcessId} {image : List UInt8}
    {plan : LoadPlan} {aslr : AslrHook} {arguments environment : List (List UInt8)}
    {runtime : NativeRuntime}
    (hrun : prepareImage target owner image plan aslr arguments environment w = (.ok runtime, w')) :
    ∃ stack, plan.buildInitialStack target (userLimit target - pageSize) arguments environment =
        .ok stack ∧ runtime.registers = stack.registers target plan.entry ∧
      Written target stack (w'.env runtime.addressSpace) := by
  unfold prepareImage prepareInternal at hrun
  rw [new_eq] at hrun
  cases hroot : w.frames.take.1 with
  | none =>
    rw [hroot] at hrun
    exact nomatch congrArg Prod.fst hrun
  | some root =>
    rw [hroot] at hrun
    dsimp only at hrun
    have hunused : Unused target (fun _ => True) ⟨w.frames.take.2, w.hardware,
        AddressSpace.fresh target owner aslr root⟩ :=
      ⟨rfl, fresh_pagesOk target owner aslr root, fresh_top target owner aslr root, trivial⟩
    split at hrun
    · exact nomatch congrArg Prod.fst hrun
    · next registers heapNext e' hresult =>
      injection hrun with hruntime hworld
      injection hruntime with hruntime
      rw [← hruntime, ← hworld]
      exact (wp_ok hresult (prepareSpace_written (fun _ h => h) hunused (some image) plan arguments
        environment)).2 rfl

theorem registers_stackPointer (target : Machine) (stack : InitialStack) (entry : Nat) :
    (stack.registers target entry).stackPointer = stack.stackPointer := by
  cases target with
  | x86_64 => rfl
  | aarch64 => rfl

/-- A program that has been prepared from an image finds the words of its stack at
    the stack pointer. It finds the texts they point to only if all of them are
    empty. -/
theorem initial_stack (target : Machine) (w w' : World) (owner : Process.ProcessId)
    (image : List UInt8) (plan : LoadPlan) (aslr : AslrHook)
    (arguments environment : List (List UInt8)) (runtime : NativeRuntime)
    (hrun : prepareImage target owner image plan aslr arguments environment w = (.ok runtime, w')) :
    (∀ i < 8 * (initialWords target plan arguments environment).length,
      (w'.env runtime.addressSpace).userByte (runtime.registers.stackPointer + i) =
        (wordBytes (initialWords target plan arguments environment))[i]?) ∧
    (Texts target (arguments ++ environment) (w'.env runtime.addressSpace) ↔
      ∀ string ∈ arguments ++ environment, string = []) := by
  rcases prepareImage_written hrun with ⟨stack, hstack, hregisters, hwritten⟩
  rcases build_placed hstack with ⟨hwords, hnuls, hbetween⟩
  have hwords : stack.words = initialWords target plan arguments environment := hwords
  rw [← hwords, hregisters, registers_stackPointer]
  refine ⟨hwritten.words, texts_iff hnuls fun place hplace i hi => ?_⟩
  rcases hbetween place hplace with ⟨hlow, hhigh⟩
  exact hwritten.zero _ (by omega) (by omega)

/-- A world with one region of memory, and no spaces yet. -/
def booted : World :=
  World.start (((init 2 plain State.initial).map Prod.snd).getD State.initial) blank

/-- The plan of a small file. -/
def smallPlan : LoadPlan :=
  (parse .x86_64 (smallImage .x86_64 0x400000 1) .x86_64 0).toOption.getD
    { base := 0, entry := 0, segmentCount := 0, totalPages := 0,
      segments := Slots.replicate maxLoadSegments none }

/-- A program with one empty argument. -/
theorem initial_stack_empty : ∃ runtime w', prepareImage .x86_64 .init
      (smallImage .x86_64 0x400000 1) smallPlan ⟨0⟩ [[]] [] booted = (.ok runtime, w') ∧
    (w'.env runtime.addressSpace).userByte runtime.registers.stackPointer = some 1 ∧
    Texts .x86_64 [[]] (w'.env runtime.addressSpace) := by
  have hok : (prepareImage .x86_64 .init (smallImage .x86_64 0x400000 1) smallPlan ⟨0⟩ [[]] []
      booted).1.toBool = true := by decide +kernel
  rcases hrun : prepareImage .x86_64 .init (smallImage .x86_64 0x400000 1) smallPlan ⟨0⟩ [[]] []
    booted with ⟨error | runtime, w'⟩
  · rw [hrun] at hok
    exact nomatch hok
  · have hfound := initial_stack .x86_64 booted w' .init _ smallPlan ⟨0⟩ [[]] [] runtime hrun
    exact ⟨runtime, w', rfl, hfound.1 0 (by decide), hfound.2.mpr (by decide)⟩

/-- The text of the argument `init` should be in the last five bytes of the stack. -/
theorem argument_lost : preparing .x86_64 plain (smallImage .x86_64 0x400000 1)
      [[0x69, 0x6e, 0x69, 0x74]] (fun w => w.spaces.map fun space =>
        (List.range 5).map fun i => (w.env space).userByte (userLimit .x86_64 - pageSize - 5 + i)) =
    some [[some 0, some 0, some 0, some 0, some 0]] := by
  decide +kernel

end UserRuntime

end Norx
