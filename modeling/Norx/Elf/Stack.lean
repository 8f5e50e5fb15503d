import Norx.Elf.Plan
import Norx.Lib.Fallible

/-!
# The Initial Stack of a Program

What a new program finds on its stack: the number of its arguments, pointers to
their texts, pointers to those of its environment and an auxiliary vector. The
texts are placed from the top of the stack down, the words below them.

Addresses are numbers. Of the array of words only the part in use is kept, and
the array of bytes is a store whose first 4096 bytes it is. A text is written
between the bottom of the stack and the last text placed, so the write is inside
the array; the number of words is a sum of numbers up to 16, so it does not
overflow.

## Main definitions

* `InitialStack`, `InitialRegisters`: The stack and the registers.
* `placeString`, `build`: Making the stack.
* `LoadPlan.buildInitialStack`, `InitialStack.registers`: As a plan's caller sees it.

## Theorems

* `placeStrings_laid`: What placing some texts leaves.
* `build_bounds`: Where the words are.
* `build_placed`: What they are, and where the texts are.
* `stack_layout`: The stack a program finds.
-/

namespace Norx

namespace Elf

open List

def maxArguments : Nat := 16
def maxEnvironment : Nat := 16
def maxStackWords : Nat := 64
def maxStackBytes : Nat := 4096
def atPagesz : UInt64 := 6
def atEntry : UInt64 := 9

structure InitialRegisters where
  instructionPointer : Nat
  stackPointer : Nat
  flags : UInt64
  arg0 : UInt64
  arg1 : UInt64
  arg2 : UInt64
  deriving DecidableEq, Repr

structure InitialStack where
  stackPointer : Nat
  words : List UInt64
  bytes : Store
  byteCount : Nat

/-- What has been placed so far. -/
structure Placed where
  cursor : Nat
  bytes : Store
  byteCount : Nat

def placeString (stackBottom : Nat) (string : List UInt8) (placed : Placed) :
    Except Error (UInt64 × Placed) :=
  if 0 ∈ string then .error .interiorNul
  else match Usize.checkedAdd string.length 1 with
    | none => .error .stackOverflow
    | some length =>
      if placed.cursor < length then .error .stackOverflow
      else
        let start := placed.cursor - length
        if start < stackBottom then .error .stackOverflow
        else .ok (UInt64.ofNat start,
          { cursor := start
            bytes := placed.bytes.write (start - stackBottom) (string ++ [0])
            byteCount := min (placed.byteCount + length) (2 ^ 64 - 1) })

/-- Place texts one after the other, with a pointer to each. -/
def placeStrings (stackBottom : Nat) : List (List UInt8) → Placed → Except Error (List UInt64 × Placed)
  | [], placed => .ok ([], placed)
  | string :: strings, placed => do
    let (pointer, placed) ← placeString stackBottom string placed
    let (pointers, placed) ← placeStrings stackBottom strings placed
    return (pointer :: pointers, placed)

/-- The words of the stack, with the auxiliary vector at the end. -/
def stackWords (entry : Nat) (argumentPointers environmentPointers : List UInt64) : List UInt64 :=
  UInt64.ofNat argumentPointers.length :: argumentPointers ++ 0 :: environmentPointers ++
    [0, atPagesz, UInt64.ofNat pageSize, atEntry, UInt64.ofNat entry, 0, 0]

def build (target : Machine) (entry stackTop : Nat) (arguments environment : List (List UInt8)) :
    Except Error InitialStack := do
  if maxArguments < arguments.length ∨ maxEnvironment < environment.length then
    throw .tooManyStrings
  if stackTop % pageSize ≠ 0 ∨ stackTop < maxStackBytes + pageSize ∨ userLimit target < stackTop then
    throw .invalidStack
  let wordCount := 1 + arguments.length + 1 + environment.length + 1 + 6
  if maxStackWords < wordCount then throw .stackOverflow
  let stackBottom := stackTop - maxStackBytes
  let (argumentPointers, placed) ← placeStrings stackBottom arguments
    { cursor := stackTop, bytes := fun _ => 0, byteCount := 0 }
  let (environmentPointers, placed) ← placeStrings stackBottom environment placed
  if placed.cursor < wordCount * 8 then throw .stackOverflow
  let stackPointer := alignDown (placed.cursor - wordCount * 8) 16
  if stackPointer < stackBottom then throw .stackOverflow
  return { stackPointer, words := stackWords entry argumentPointers environmentPointers,
           bytes := placed.bytes, byteCount := placed.byteCount }

def LoadPlan.buildInitialStack (target : Machine) (plan : LoadPlan) (stackTop : Nat)
    (arguments environment : List (List UInt8)) : Except Error InitialStack :=
  build target plan.entry stackTop arguments environment

def InitialStack.registers (target : Machine) (stack : InitialStack) (entry : Nat) :
    InitialRegisters :=
  let count := (stack.words.headD 0)
  match target with
  | .x86_64 => { instructionPointer := entry, stackPointer := stack.stackPointer, flags := 0x202,
                 arg0 := 0, arg1 := 0, arg2 := 0 }
  | .aarch64 => { instructionPointer := entry, stackPointer := stack.stackPointer, flags := 0,
                  arg0 := count, arg1 := UInt64.ofNat (stack.stackPointer + 8),
                  arg2 := UInt64.ofNat (stack.stackPointer + 8 * (2 + count.toNat)) }

/-! ### Where the texts are -/

variable {stackBottom : Nat}

/-- Where the last of some texts is that are placed from an address down. -/
def below (cursor : Nat) (strings : List (List UInt8)) : Nat :=
  strings.foldl (fun cursor string => cursor - (string.length + 1)) cursor

/-- Where each of them is. -/
def addresses : Nat → List (List UInt8) → List Nat
  | _, [] => []
  | cursor, string :: strings =>
    (cursor - (string.length + 1)) :: addresses (cursor - (string.length + 1)) strings

theorem addresses_append (cursor : Nat) (strings strings' : List (List UInt8)) :
    addresses cursor (strings ++ strings') =
      addresses cursor strings ++ addresses (below cursor strings) strings' := by
  induction strings generalizing cursor with
  | nil => rfl
  | cons string strings ih => exact congrArg _ (ih _)

theorem addresses_length (cursor : Nat) (strings : List (List UInt8)) :
    (addresses cursor strings).length = strings.length := by
  induction strings generalizing cursor with
  | nil => rfl
  | cons string strings ih => exact congrArg (· + 1) (ih _)

/-- The texts are apart from each other, above the last and below the first. -/
def Between (low high : Nat) (place : Nat × List UInt8) : Prop :=
  low ≤ place.1 ∧ place.1 + place.2.length + 1 ≤ high

/-- A text with its NUL in the bytes of the stack. -/
def Written (stackBottom : Nat) (bytes : Store) (place : Nat × List UInt8) : Prop :=
  bytes.read (place.1 - stackBottom) (place.2.length + 1) = place.2 ++ [0]

theorem placeString_placed {string : List UInt8} {placed placed' : Placed} {pointer : UInt64}
    (h : placeString stackBottom string placed = .ok (pointer, placed')) :
    pointer = UInt64.ofNat placed'.cursor ∧ 0 ∉ string ∧
      placed'.cursor + (string.length + 1) = placed.cursor ∧ stackBottom ≤ placed'.cursor ∧
      placed'.bytes = placed.bytes.write (placed'.cursor - stackBottom) (string ++ [0]) := by
  unfold placeString at h
  split_ifs at h with hnul
  split at h
  · exact nomatch h
  · next length hlength =>
    rcases Usize.checkedAdd_eq_some.mp hlength with ⟨rfl, _⟩
    dsimp only at h
    split_ifs at h with hroom hlow
    injection h with h
    injection h with hpointer h
    subst h
    exact ⟨hpointer.symm, hnul, by dsimp only; omega, by dsimp only; omega, rfl⟩

/-- What placing some texts from a cursor down leaves: each is where it was put,
    the later ones below the earlier, and nothing above the cursor has changed. -/
structure Laid (stackBottom : Nat) (strings : List (List UInt8)) (placed placed' : Placed) :
    Prop where
  nuls : ∀ string ∈ strings, 0 ∉ string
  cursor : placed'.cursor = below placed.cursor strings
  low : stackBottom ≤ placed'.cursor
  high : placed'.cursor ≤ placed.cursor
  places : ∀ place ∈ (addresses placed.cursor strings).zip strings,
    Between placed'.cursor placed.cursor place ∧ Written stackBottom placed'.bytes place
  apart : ((addresses placed.cursor strings).zip strings).Pairwise
    fun earlier later => later.1 + later.2.length + 1 ≤ earlier.1
  above : ∀ a, placed.cursor - stackBottom ≤ a → placed'.bytes a = placed.bytes a

theorem placeStrings_laid : ∀ (strings : List (List UInt8))
    {placed placed' : Placed} {pointers : List UInt64}, stackBottom ≤ placed.cursor →
    placeStrings stackBottom strings placed = .ok (pointers, placed') →
      pointers = (addresses placed.cursor strings).map UInt64.ofNat ∧
        Laid stackBottom strings placed placed' := by
  intro strings
  induction strings with
  | nil =>
    intro placed placed' pointers hbottom h
    injection h with h
    injection h with hpointers hplaced
    rw [← hpointers, ← hplaced]
    exact ⟨rfl, nofun, rfl, hbottom, Nat.le_refl _, nofun, .nil, fun _ _ => rfl⟩
  | cons string strings ih =>
    intro placed placed' pointers hbottom h
    rcases except_bind_ok h with ⟨⟨pointer, placed₁⟩, hfirst, h⟩
    rcases except_bind_ok h with ⟨⟨pointers₁, placed₂⟩, hrest, h⟩
    injection h with h
    injection h with hpointers hplaced
    subst hpointers hplaced
    rcases placeString_placed hfirst with ⟨rfl, hnul, hcursor, hlow, hbytes⟩
    rcases ih hlow hrest with ⟨rfl, hlaid⟩
    have hstart : placed.cursor - (string.length + 1) = placed₁.cursor := by omega
    have hlength : (string ++ [0]).length = string.length + 1 := length_append
    have habove : ∀ a, placed₁.cursor - stackBottom ≤ a →
        placed₂.bytes a = placed.bytes.write (placed₁.cursor - stackBottom) (string ++ [0]) a := by
      intro a ha
      rw [hlaid.above a ha, hbytes]
    -- the first text is above the others, so placing them leaves it
    have hwritten : Written stackBottom placed₂.bytes (placed₁.cursor, string) := by
      refine ext_getElem (by simp [Store.read]) fun i hi hi' => ?_
      simp only [Store.read, getElem_map, getElem_range]
      rw [habove _ (by omega), Store.write_self _ hi']
    refine ⟨by rw [addresses, hstart, map_cons], ?_⟩
    refine ⟨forall_mem_cons.mpr ⟨hnul, hlaid.nuls⟩, ?_, hlaid.low, ?_, ?_, ?_, ?_⟩
    · rw [below, foldl_cons, hstart]
      exact hlaid.cursor
    · exact Nat.le_trans hlaid.high (by omega)
    · rw [addresses, hstart]
      refine forall_mem_cons.mpr ⟨⟨⟨hlaid.high, ?_⟩, hwritten⟩, fun place hplace => ?_⟩
      · change placed₁.cursor + string.length + 1 ≤ _
        omega
      · rcases hlaid.places place hplace with ⟨⟨hle, hlt⟩, hplaced⟩
        exact ⟨⟨hle, by omega⟩, hplaced⟩
    · rw [addresses, hstart]
      exact .cons (fun place hplace => (hlaid.places place hplace).1.2) hlaid.apart
    · intro a ha
      rw [habove a (by omega), Store.write_other _ (by omega)]

theorem placeStrings_append {strings strings' : List (List UInt8)} {placed placed₁ placed' : Placed}
    {pointers pointers' : List UInt64}
    (h : placeStrings stackBottom strings placed = .ok (pointers, placed₁))
    (h' : placeStrings stackBottom strings' placed₁ = .ok (pointers', placed')) :
    placeStrings stackBottom (strings ++ strings') placed = .ok (pointers ++ pointers', placed') := by
  induction strings generalizing placed pointers with
  | nil =>
    injection h with h
    injection h with hpointers hplaced
    rw [← hpointers, hplaced]
    exact h'
  | cons string strings ih =>
    rcases except_bind_ok h with ⟨⟨pointer, _⟩, hfirst, h⟩
    rcases except_bind_ok h with ⟨⟨pointers₁, _⟩, hrest, h⟩
    injection h with h
    injection h with hpointers hplaced
    subst hpointers hplaced
    rw [cons_append, placeStrings, hfirst]
    exact congrArg (· >>= fun p => .ok (pointer :: p.1, p.2)) (ih hrest)

/-! ### Where the words are -/

section Build

variable {target : Machine} {entry stackTop : Nat} {arguments environment : List (List UInt8)}
  {stack : InitialStack}

section Built

variable (h : build target entry stackTop arguments environment = .ok stack)

include h

/-- The words, and the texts above them. -/
theorem build_laid :
    stackTop ≤ userLimit target ∧ stack.words.length ≤ maxStackWords ∧
      stackTop - maxStackBytes ≤ stack.stackPointer ∧ stack.stackPointer % 16 = 0 ∧
      stack.words = stackWords entry ((addresses stackTop arguments).map UInt64.ofNat)
        ((addresses (below stackTop arguments) environment).map UInt64.ofNat) ∧
      ∃ placed, stack.bytes = placed.bytes ∧
        stack.stackPointer + 8 * stack.words.length ≤ placed.cursor ∧
        Laid (stackTop - maxStackBytes) (arguments ++ environment)
          { cursor := stackTop, bytes := fun _ => 0, byteCount := 0 } placed := by
  rcases except_guard_ok h with ⟨_, h⟩
  rcases except_guard_ok h with ⟨htop, h⟩
  rcases except_guard_ok h with ⟨hwords, h⟩
  rcases except_bind_ok h with ⟨⟨pointers, placed⟩, hfirst, h⟩
  rcases except_bind_ok h with ⟨⟨pointers', placed'⟩, hsecond, h⟩
  rcases except_guard_ok h with ⟨hroom, h⟩
  rcases except_guard_ok h with ⟨hlow, h⟩
  injection h with h
  subst h
  have hbottom : stackTop - maxStackBytes ≤ stackTop := Nat.sub_le _ _
  have hlaid := (placeStrings_laid _ hbottom (placeStrings_append hfirst hsecond)).2
  rcases placeStrings_laid _ hbottom hfirst with ⟨rfl, hlaid₁⟩
  rcases placeStrings_laid _ hlaid₁.low hsecond with ⟨rfl, -⟩
  have hlen : (stackWords entry ((addresses stackTop arguments).map UInt64.ofNat)
      ((addresses placed.cursor environment).map UInt64.ofNat)).length =
        1 + arguments.length + 1 + environment.length + 1 + 6 := by
    simp [stackWords, addresses_length]
    omega
  have hbelow : placed.cursor = below stackTop arguments := hlaid₁.cursor
  dsimp only at hroom hlow hwords ⊢
  refine ⟨by omega, by omega, by omega, ?_, by rw [hbelow], placed', rfl, ?_, hlaid⟩
  · unfold alignDown
    omega
  · unfold alignDown
    omega

/-- The words lie between the bottom and the top of the stack, and there are few
    of them. -/
theorem build_bounds :
    stackTop ≤ stack.stackPointer + maxStackBytes ∧
      stack.stackPointer + 8 * stack.words.length ≤ stackTop ∧
      stack.words.length ≤ maxStackWords := by
  rcases build_laid h with ⟨_, hfew, hlow, _, _, placed, _, hroom, hlaid⟩
  exact ⟨by omega, Nat.le_trans hroom hlaid.high, hfew⟩

/-- The words hold the texts' addresses, and the texts are above the words. -/
theorem build_placed :
    stack.words = stackWords entry ((addresses stackTop arguments).map UInt64.ofNat)
        ((addresses (below stackTop arguments) environment).map UInt64.ofNat) ∧
      (∀ string ∈ arguments ++ environment, 0 ∉ string) ∧
      ∀ place ∈ (addresses stackTop (arguments ++ environment)).zip (arguments ++ environment),
        Between (stack.stackPointer + 8 * stack.words.length) stackTop place := by
  rcases build_laid h with ⟨_, _, _, _, hwords, placed, _, hroom, hlaid⟩
  refine ⟨hwords, hlaid.nuls, fun place hplace => ?_⟩
  rcases (hlaid.places place hplace).1 with ⟨hle, hlt⟩
  exact ⟨Nat.le_trans hroom hle, hlt⟩

end Built

/-- The stack a program finds: the number of its arguments, a pointer to each, a
    null, a pointer to each text of its environment, a null and the auxiliary
    vector up to its null pair, from an aligned stack pointer that is not below
    the bottom on. At every pointer is its text with a NUL, above the words and
    apart from the other texts. -/
theorem stack_layout (h : build target entry stackTop arguments environment = .ok stack) :
    ∃ argv envp : List UInt64,
      stack.words = UInt64.ofNat arguments.length :: argv ++ 0 :: envp ++
          [0, atPagesz, UInt64.ofNat pageSize, atEntry, UInt64.ofNat entry, 0, 0] ∧
        argv.length = arguments.length ∧ envp.length = environment.length ∧
        (∀ place ∈ (argv ++ envp).zip (arguments ++ environment),
          Written (stackTop - maxStackBytes) stack.bytes (place.1.toNat, place.2) ∧
          stack.stackPointer + 8 * stack.words.length ≤ place.1.toNat ∧
          place.1.toNat + place.2.length + 1 ≤ stackTop) ∧
        ((argv ++ envp).zip (arguments ++ environment)).Pairwise (fun earlier later =>
          later.1.toNat + later.2.length + 1 ≤ earlier.1.toNat) ∧
        stack.stackPointer % 16 = 0 ∧ stackTop - maxStackBytes ≤ stack.stackPointer := by
  rcases build_laid h with ⟨htop, _, hlow, haligned, hwords, placed, hbytes, hroom, hlaid⟩
  have hlimit : userLimit target < 2 ^ 64 := by cases target <;> decide
  -- the pointers with their texts are the places, as words
  have hzip : ((addresses stackTop arguments).map UInt64.ofNat ++
      (addresses (below stackTop arguments) environment).map UInt64.ofNat).zip
        (arguments ++ environment) =
      ((addresses stackTop (arguments ++ environment)).zip (arguments ++ environment)).map
        (Prod.map UInt64.ofNat id) := by
    rw [← map_append, ← addresses_append, zip_map_left]
  have hword : ∀ place ∈ (addresses stackTop (arguments ++ environment)).zip
      (arguments ++ environment), (UInt64.ofNat place.1).toNat = place.1 := by
    intro place hplace
    have hlt : place.1 + place.2.length + 1 ≤ stackTop := (hlaid.places place hplace).1.2
    exact UInt64.toNat_ofNat_of_lt' (by change _ < 2 ^ 64; omega)
  refine ⟨(addresses stackTop arguments).map UInt64.ofNat,
    (addresses (below stackTop arguments) environment).map UInt64.ofNat,
    hwords.trans ?_, ?_, ?_, ?_, ?_, haligned, hlow⟩
  · rw [stackWords, length_map, addresses_length]
  · rw [length_map, addresses_length]
  · rw [length_map, addresses_length]
  · rw [hzip, forall_mem_map]
    intro place hplace
    rcases hlaid.places place hplace with ⟨⟨hle, hlt⟩, hwritten⟩
    change Written _ _ ((UInt64.ofNat place.1).toNat, place.2) ∧ _ ≤ (UInt64.ofNat place.1).toNat ∧
      (UInt64.ofNat place.1).toNat + place.2.length + 1 ≤ _
    rw [hword place hplace, hbytes]
    exact ⟨hwritten, Nat.le_trans hroom hle, hlt⟩
  · rw [hzip, pairwise_map]
    refine hlaid.apart.imp_of_mem fun {earlier later} hearlier hlater happart => ?_
    change (UInt64.ofNat later.1).toNat + later.2.length + 1 ≤ (UInt64.ofNat earlier.1).toNat
    rwa [hword earlier hearlier, hword later hlater]

/-- A program with an argument and a text in its environment. -/
theorem stack_layout_two : ∃ stack,
    build .x86_64 0x400000 0x800000 [[97]] [[98]] = .ok stack ∧ stack.stackPointer % 16 = 0 ∧
      ∃ argv envp : List UInt64, argv.length = 1 ∧ envp.length = 1 ∧
        stack.words = 1 :: argv ++ 0 :: envp ++ [0, 6, 4096, 9, 0x400000, 0, 0] := by
  have hbuild : build .x86_64 0x400000 0x800000 [[97]] [[98]] = .ok _ := rfl
  rcases stack_layout hbuild with ⟨argv, envp, hwords, hargv, henvp, _, _, haligned, _⟩
  exact ⟨_, hbuild, haligned, argv, envp, hargv, henvp, hwords⟩

end Build

end Elf

end Norx
