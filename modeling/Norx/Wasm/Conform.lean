import Norx.Wasm.Parse

/-!
# What an Accepted Image Declares

The loader checks most of what a section says against the module as built so
far, and sections come in any order. This module says which of those checks
still hold of the finished module.

The code was verified against what was declared when its section came. Types
are declared by then, because the type of the function is, and they do not
change. Imports and the memory may still be missing, but the verifier only
ever asks for more of them, so the code stays verified when they are added.

The entry point is another matter. `norx_main` must have the index of the
first function that is not an import, and the loader compares it with the
number of imports declared so far. An import section after the export section
moves the function, and the export is left pointing at an import. And the
declared type of the function is not looked at at all.

## Theorems

* `verifyBody_mono`: Verified code stays verified when declarations are added.
* `load_loaded`: A section keeps what the loader has established.
* `parse_verified`: The code of a loaded module is verified against it.
* `parse_conforms_iff`: A loaded module conforms exactly when the entry point is
  declared as it should be and no imports come late.
-/

namespace Norx

namespace Wasm

open List Option

/-- The payload of the section with the id, if there is one. -/
def payloadOf (secs : List Section) (id : Nat) : Option (List UInt8) :=
  (secs.find? (fun s => s.id.toNat = id)).map Section.payload

/-- The type index a function section declares for its first function. -/
def functionIndex (payload : List UInt8) : Option Nat :=
  Except.toOption do
    let (_, position) ← Cursor.count payload 0 1
    let (index, _) ← Cursor.lebU32 payload position
    pure index.toNat

def readExports (payload : List UInt8) : Nat → Nat → Except Error (List Export)
  | 0, _ => pure []
  | left + 1, position => do
    let (item, position) ← readExport payload position
    let items ← readExports payload left position
    pure (item :: items)

/-- The index an export section gives for the function `norx_main`. -/
def mainIndex (payload : List UInt8) : Option Nat := do
  let items ← Except.toOption do
    let (count, position) ← Cursor.count payload 0 4
    readExports payload count position
  let item ← items.find? (fun item => item.name = norxMain ∧ item.kind = 0)
  pure item.index

/-- The number of imports an import section declares. -/
def declaredImports (payload : List UInt8) : Nat :=
  match Cursor.count payload 0 maxImports with
  | .ok (count, _) => count
  | .error _ => 0

/-- The signature the image declares for its function. -/
def entrySignature (image : List UInt8) : Option Signature := do
  let functions ← payloadOf (sections image) 3
  let index ← functionIndex functions
  let declared ← payloadOf (sections image) 1
  let (types, _) ← (parseTypes Module.initial.types declared).toOption
  pure (types.get index)

/-- The signature `() -> i32`. -/
def Signature.IsEntry (signature : Signature) : Prop :=
  signature.parameterCount = 0 ∧ signature.result = some .i32

/-- An import section that declares an import comes after an export section. -/
def LateImports (secs : List Section) : Prop :=
  ∃ before late after, secs = before ++ late :: after ∧ late.id.toNat = 2 ∧
    0 < declaredImports late.payload ∧ payloadOf before 7 ≠ none

/-- What the profile asks of a loaded module: `norx_main` is the function after
    the imports, its type is `() -> i32`, and its code is verified against the
    module as it is. -/
structure Conforms (image : List UInt8) (m : Module) : Prop where
  entry : (payloadOf (sections image) 7).bind mainIndex = some m.importCount
  function : ∃ index, (payloadOf (sections image) 3).bind functionIndex = some index ∧
    (m.types.get index).IsEntry ∧ verifyBody m m.code index = .ok ()

variable {typeIndex : Nat}

section Verified

/-- The second module declares at least what the first does, of what the
    verifier asks for. -/
structure Module.Extends (m m' : Module) : Prop where
  types : m'.types = m.types
  imports : ∀ i, i < m.importCount → i < m'.importCount ∧ m'.imports.get i = m.imports.get i
  memory : m.memory = true → m'.memory = true

variable {m m' : Module} {result : Option ValType} {body : List UInt8}

theorem verifyStep_mono (hext : m.Extends m') {v v' : Verifier}
    (h : verifyStep m result body v = .ok v') : verifyStep m' result body v = .ok v' := by
  rw [verifyStep, except_bind_eq_ok] at h ⊢
  rcases h with ⟨⟨byte, position⟩, hbyte, h⟩
  refine ⟨_, hbyte, ?_⟩
  -- A call asks for an import and a memory access for a memory. The other instructions
  -- do not look at the module.
  cases hop : Opcode.ofByte byte with
  | call =>
    simp [hop] at h ⊢
    rcases h with ⟨index, next, hleb, hindex, h⟩
    rcases hext.imports _ hindex with ⟨hindex', himport⟩
    exact ⟨index, next, hleb, hindex', himport ▸ h⟩
  | load | store =>
    simp [hop] at h ⊢
    exact ⟨hext.memory h.1, h.2⟩
  | _ =>
    simp only [hop] at h ⊢
    exact h

theorem verifyLoop_mono (hext : m.Extends m') : ∀ (fuel : Nat) (v v' : Verifier),
    verifyLoop m result body fuel v = .ok v' → verifyLoop m' result body fuel v = .ok v' := by
  intro fuel
  induction fuel with
  | zero => exact fun _ _ h => h
  | succ fuel ih =>
    intro v v' h
    rw [verifyLoop] at h ⊢
    split at h
    · next hend =>
        rw [if_pos hend]
        exact h
    · next hend =>
        rcases except_bind_ok h with ⟨middle, hstep, h⟩
        rw [if_neg hend, verifyStep_mono hext hstep]
        exact ih middle v' h

/-- Verified code stays verified when declarations are added. -/
theorem verifyBody_mono (hext : m.Extends m') (h : verifyBody m body typeIndex = .ok ()) :
    verifyBody m' body typeIndex = .ok () := by
  rw [verifyBody] at h ⊢
  rcases except_bind_ok h with ⟨⟨locals, position⟩, hcount, h⟩
  rcases ite_throw_eq_ok.mp h with ⟨hlocals, h⟩
  rcases except_bind_ok h with ⟨v, hloop, h⟩
  rw [hcount, except_ok_bind]
  dsimp only
  rw [if_neg hlocals, hext.types, verifyLoop_mono hext _ _ _ hloop]
  exact h

end Verified

variable {id : Nat}

section Lists

@[grind =] theorem payloadOf_append (done : List Section) (s : Section) :
    payloadOf (done ++ [s]) id =
      (payloadOf done id).or (if s.id.toNat = id then some s.payload else none) := by
  rw [payloadOf, payloadOf, List.find?_append, List.find?_cons]
  split <;> cases done.find? (fun s => s.id.toNat = id) <;> simp_all

/-- A list that ends in one more section has late imports if it had before, or
    if the section declares imports and the exports have come. -/
@[grind =] theorem lateImports_append (done : List Section) (s : Section) :
    LateImports (done ++ [s]) ↔ LateImports done ∨
      (s.id.toNat = 2 ∧ 0 < declaredImports s.payload ∧ payloadOf done 7 ≠ none) := by
  constructor
  · rintro ⟨before, late, after, hsecs, hlate⟩
    -- The late section is the one added, or it was there before.
    rcases eq_nil_or_concat after with rfl | ⟨init, last, rfl⟩
    · rcases append_inj' hsecs rfl with ⟨rfl, hlast⟩
      injection hlast with hlast _
      rw [hlast]
      exact .inr hlate
    · rw [concat_eq_append, ← cons_append, ← append_assoc] at hsecs
      exact .inl ⟨before, late, init, (append_inj' hsecs rfl).1, hlate⟩
  · rintro (⟨before, late, after, rfl, hlate⟩ | hlate)
    · exact ⟨before, late, after ++ [s], by rw [append_assoc, cons_append], hlate⟩
    · exact ⟨done, s, [], rfl, hlate⟩

end Lists

variable {position importCount : Nat} {functionType : Option Nat}
  {imports : Slots maxImports (Option Import)} {code : List UInt8}

section Payloads

variable {m : Module} {payload : List UInt8}

theorem typeIndex_eq_ok {index : BitVec 32} (h : m.typeIndex index = .ok typeIndex) :
    index.toNat = typeIndex ∧ typeIndex < m.typeCount := by
  rw [Module.typeIndex] at h
  split at h
  · next hlt =>
      injection h with h
      exact ⟨h, h ▸ hlt⟩
  · exact absurd h throw_ne_ok

theorem parseFunction_index (h : parseFunction m payload = .ok (typeIndex, position)) :
    functionIndex payload = some typeIndex ∧ typeIndex < m.typeCount := by
  simp only [parseFunction, except_bind_eq_ok, ite_throw_eq_ok, pure_eq_ok, Prod.exists,
    Prod.mk.injEq] at h
  rcases h with ⟨count, next, hcount, -, index, last, hleb, found, hindex, rfl, -⟩
  rcases typeIndex_eq_ok hindex with ⟨rfl, hlt⟩
  refine ⟨?_, hlt⟩
  rw [functionIndex, hcount, except_ok_bind]
  dsimp only
  rw [hleb]
  rfl

theorem parseImports_declared (h : parseImports m payload = .ok (imports, importCount, position)) :
    declaredImports payload = importCount := by
  simp only [parseImports, except_bind_eq_ok, pure_eq_ok, Prod.exists, Prod.mk.injEq] at h
  rcases h with ⟨count, next, hcount, -, -, -, -, rfl, -⟩
  rw [declaredImports, hcount]

/-- The exports the loop accepts can be read, and if it finds `norx_main` then
    the first of that name has the index of the first function. -/
theorem parseExportsLoop_main : ∀ (left : Nat) (entry found : Bool) (position last : Nat),
    parseExportsLoop m payload left entry position = .ok (found, last) →
    ∃ items, readExports payload left position = .ok items ∧ (entry = false → found = true →
      (items.find? (fun item => item.name = norxMain ∧ item.kind = 0)).map Export.index
        = some m.importCount) := by
  intro left
  induction left with
  | zero =>
    intro entry found position last h
    exact ⟨[], rfl, by grind [parseExportsLoop]⟩
  | succ left ih =>
    intro entry found position last h
    rcases except_bind_ok h with ⟨⟨item, next⟩, hread, h⟩
    dsimp only at h
    -- What is left of the loop reads the rest of the items in every case.
    have hitems {rest : List Export} (hrest : readExports payload left next = .ok rest) :
        readExports payload (left + 1) position = .ok (item :: rest) := by
      simp [readExports, hread, hrest]
    split at h
    · next hname =>
        rw [ite_throw_eq_ok, not_or, not_not, not_or, not_not] at h
        rcases ih true found next last h.2 with ⟨rest, hrest, _⟩
        refine ⟨item :: rest, hitems hrest, fun _ _ => ?_⟩
        rw [List.find?_cons, decide_eq_true ⟨hname, h.1.1⟩, map_some, h.1.2.1]
    · next hname =>
        -- An export of the memory does not touch the flag.
        have hnext : parseExportsLoop m payload left entry next = .ok (found, last) := by grind
        rcases ih entry found next last hnext with ⟨rest, hrest, hmain⟩
        refine ⟨item :: rest, hitems hrest, fun hentry hfound => ?_⟩
        rw [List.find?_cons, decide_eq_false (fun h => hname h.1)]
        exact hmain hentry hfound

theorem parseExports_main (h : parseExports m payload = .ok (true, position)) :
    mainIndex payload = some m.importCount := by
  rcases except_bind_ok h with ⟨⟨count, next⟩, hcount, h⟩
  rcases parseExportsLoop_main count false true next position h with ⟨items, hitems, hmain⟩
  rw [mainIndex, hcount, except_ok_bind]
  dsimp only
  rw [hitems]
  rcases map_eq_some_iff.mp (hmain rfl rfl) with ⟨item, hfind, hindex⟩
  change (items.find? (fun item => item.name = norxMain ∧ item.kind = 0)).bind
    (fun item => some item.index) = _
  rw [hfind, ← hindex]
  rfl

theorem parseCode_verified (h : parseCode m functionType payload = .ok (code, position)) :
    ∃ typeIndex, functionType = some typeIndex ∧ verifyBody m code typeIndex = .ok () := by
  simp only [parseCode, except_bind_eq_ok, ite_throw_eq_ok, Prod.exists] at h
  rcases h with ⟨count, next, -, -, h⟩
  cases functionType with
  | none => exact absurd h throw_ne_ok
  | some typeIndex =>
    simp only [except_bind_eq_ok, pure_eq_ok, Prod.exists, Prod.mk.injEq] at h
    rcases h with ⟨-, -, -, body, -, -, _, hverified, rfl, -⟩
    exact ⟨typeIndex, rfl, hverified⟩

end Payloads

variable {m : Module} {seen : Slots 13 Bool}

section Order

/-- The loader has noted which kinds of section have come. -/
def SeenLoaded (done : List Section) (seen : Slots 13 Bool) : Prop :=
  ∀ id, id ≠ 0 → id < 13 → seen.get id = (payloadOf done id).isSome

/-- The types are those of the type section. -/
def TypesLoaded (done : List Section) (types : Slots maxTypes Signature) (typeCount : Nat) : Prop :=
  (payloadOf done 1 = none → types = Module.initial.types ∧ typeCount = 0) ∧
    ∀ payload, payloadOf done 1 = some payload →
      ∃ n, parseTypes Module.initial.types payload = .ok (types, typeCount, n)

/-- There are no imports without an import section. -/
def ImportsLoaded (done : List Section) (importCount : Nat) : Prop :=
  payloadOf done 2 = none → importCount = 0

/-- The type of the function is that of the function section, and one of the
    types there are. -/
def FunctionLoaded (done : List Section) (functionType : Option Nat) (typeCount : Nat) : Prop :=
  (payloadOf done 3 = none → functionType = none) ∧
    ∀ payload, payloadOf done 3 = some payload →
      ∃ index, functionType = some index ∧ functionIndex payload = some index ∧ index < typeCount

/-- `norx_main` is the function after the imports, or an import declared since. -/
def EntryLoaded (done : List Section) (entry : Bool) (importCount : Nat) : Prop :=
  ∀ payload, payloadOf done 7 = some payload → entry = true →
    ∃ index, mainIndex payload = some index ∧ (¬ LateImports done → index = importCount) ∧
      (LateImports done → index < importCount)

/-- The code is verified against the module as it is. -/
def CodeLoaded (done : List Section) (functionType : Option Nat) (m : Module) : Prop :=
  payloadOf done 10 ≠ none →
    ∃ index, functionType = some index ∧ verifyBody m m.code index = .ok ()

/-- What the loader has established after some of the sections. -/
structure Loaded (done : List Section) (l : Loader) : Prop where
  seen : SeenLoaded done l.seen
  types : TypesLoaded done l.module.types l.module.typeCount
  imports : ImportsLoaded done l.module.importCount
  function : FunctionLoaded done l.functionType l.module.typeCount
  entry : EntryLoaded done l.entry l.module.importCount
  code : CodeLoaded done l.functionType l.module

variable {done : List Section} {s : Section}

theorem seenLoaded_append (h : SeenLoaded done seen) (hid : s.id.toNat = id) :
    SeenLoaded (done ++ [s]) (seen.set id true) := by
  intro other hne hother
  have hseen := h other hne hother
  by_cases heq : other = id
  · grind [Slots.get_set_self]
  · grind [Slots.get_set_other]

theorem seenLoaded_frame (h : SeenLoaded done seen) (hid : s.id.toNat = 0) :
    SeenLoaded (done ++ [s]) seen := by
  grind [SeenLoaded]

theorem codeLoaded_frame {m' : Module} (h : CodeLoaded done functionType m) (hid : s.id.toNat ≠ 10)
    (hext : m.Extends m') (hcode : m'.code = m.code) :
    CodeLoaded (done ++ [s]) functionType m' := by
  have hmono (index : Nat) (h : verifyBody m m.code index = .ok ()) := verifyBody_mono hext h
  grind [CodeLoaded]

/-- A kind of section that has not been seen has not come. -/
theorem payloadOf_of_fresh {l : Loader} (h : Loaded done l) (hne : id ≠ 0) (hlt : id < 13)
    (fresh : l.seen.get id = false) : payloadOf done id = none := by
  have hseen := h.seen id hne hlt
  rw [fresh] at hseen
  exact isNone_iff_eq_none.mp (isSome_eq_false_iff.mp hseen.symm)

/-- A function type is one of the types, so the type section has come. -/
theorem types_before_function {l : Loader} (h : Loaded done l) {index : Nat}
    (hindex : l.functionType = some index) : payloadOf done 1 ≠ none := by
  intro hnone
  cases hfunction : payloadOf done 3 with
  | none =>
    rw [h.function.1 hfunction] at hindex
    exact absurd hindex nofun
  | some payload =>
    rcases h.function.2 payload hfunction with ⟨_, _, _, hlt⟩
    rw [(h.types.1 hnone).2] at hlt
    exact absurd hlt (Nat.not_lt_zero _)

/-- A module that differs from another in none of what the verifier asks for. -/
theorem Module.Extends.of_eq {m' : Module} (htypes : m'.types = m.types)
    (hcount : m'.importCount = m.importCount) (himports : m'.imports = m.imports)
    (hmemory : m.memory = true → m'.memory = true) : m.Extends m' :=
  ⟨htypes, fun i hi => ⟨hcount ▸ hi, by rw [himports]⟩, hmemory⟩

end Order

section Step

variable {done : List Section} {s : Section} {l : Loader}

section Loaded

variable (h : Loaded done l)

include h

theorem loaded_types {types : Slots maxTypes Signature} {typeCount : Nat} (id : s.id.toNat = 1)
    (fresh : l.seen.get 1 = false)
    (parsed : parseTypes l.module.types s.payload = .ok (types, typeCount, s.payload.length)) :
    Loaded (done ++ [s]) { l with
      seen := l.seen.set 1 true
      module := { l.module with types, typeCount } } := by
  have hnone := payloadOf_of_fresh h (by omega) (by omega) fresh
  -- A function section before the types finds no type to name.
  have hfunction : payloadOf done 3 = none := by
    cases hfunction : payloadOf done 3 with
    | none => rfl
    | some payload =>
      rcases h.function.2 payload hfunction with ⟨_, hindex, _⟩
      exact absurd hnone (types_before_function h hindex)
  have hcode : payloadOf done 10 = none := by
    -- Code comes after its function's type, and so after the types.
    by_contra hcode
    rcases h.code hcode with ⟨index, hindex, _⟩
    exact types_before_function h hindex hnone
  rcases h with ⟨hseen, htypes, himports, hfunction', hentry, -⟩
  refine ⟨seenLoaded_append hseen id, ?_, ?_, ?_, ?_, ?_⟩
  · grind [TypesLoaded]
  · grind [ImportsLoaded]
  · grind [FunctionLoaded]
  · grind [EntryLoaded]
  · grind [CodeLoaded]

theorem loaded_imports (id : s.id.toNat = 2) (fresh : l.seen.get 2 = false)
    (parsed : parseImports l.module s.payload = .ok (imports, importCount, s.payload.length)) :
    Loaded (done ++ [s]) { l with
      seen := l.seen.set 2 true
      module := { l.module with imports, importCount } } := by
  have hnone := payloadOf_of_fresh h (by omega) (by omega) fresh
  have hzero := h.imports hnone
  have hdeclared := parseImports_declared parsed
  -- Code verified without imports calls none, and is verified with them.
  have hcode : l.module.Extends { l.module with imports, importCount } :=
    ⟨rfl, fun i hi => absurd (hzero ▸ hi) (Nat.not_lt_zero i), fun h => h⟩
  refine ⟨seenLoaded_append h.seen id, ?_, ?_, ?_, ?_,
    codeLoaded_frame h.code (by omega) hcode rfl⟩
  · grind [TypesLoaded, h.types]
  · grind [ImportsLoaded]
  · grind [FunctionLoaded, h.function]
  · -- So far there were no imports, and the export has index zero.
    intro payload hpayload hentry
    rw [payloadOf_append, if_neg (by omega), or_none] at hpayload
    rcases h.entry payload hpayload hentry with ⟨index, hindex, hearly, hlate⟩
    have hnot : ¬ LateImports done := fun hlate' => absurd (hlate hlate') (by omega)
    have hfirst := hearly hnot
    exact ⟨index, hindex, by grind, by grind⟩

theorem loaded_function (id : s.id.toNat = 3) (fresh : l.seen.get 3 = false)
    (parsed : parseFunction l.module s.payload = .ok (typeIndex, s.payload.length)) :
    Loaded (done ++ [s]) { l with seen := l.seen.set 3 true, functionType := some typeIndex } := by
  have hnone := payloadOf_of_fresh h (by omega) (by omega) fresh
  rcases parseFunction_index parsed with ⟨hindex, hlt⟩
  refine ⟨seenLoaded_append h.seen id, ?_, ?_, ?_, ?_, ?_⟩
  · grind [TypesLoaded, h.types]
  · grind [ImportsLoaded, h.imports]
  · grind [FunctionLoaded]
  · grind [EntryLoaded, h.entry]
  · -- Code comes after its function's type.
    grind [CodeLoaded, FunctionLoaded, h.code, h.function]

theorem loaded_exports {entry : Bool} (id : s.id.toNat = 7) (fresh : l.seen.get 7 = false)
    (parsed : parseExports l.module s.payload = .ok (entry, s.payload.length)) :
    Loaded (done ++ [s]) { l with seen := l.seen.set 7 true, entry } := by
  have hnone := payloadOf_of_fresh h (by omega) (by omega) fresh
  have hlate : ¬ LateImports done := by
    -- No exports before this section, so no imports after them either.
    rintro ⟨before, late, after, rfl, -, -, hexports⟩
    simp_all [payloadOf]
  refine ⟨seenLoaded_append h.seen id, ?_, ?_, ?_, ?_,
    codeLoaded_frame h.code (by omega) (Module.Extends.of_eq rfl rfl rfl (fun h => h)) rfl⟩
  · grind [TypesLoaded, h.types]
  · grind [ImportsLoaded, h.imports]
  · grind [FunctionLoaded, h.function]
  · intro payload hpayload hentry
    rw [payloadOf_append, hnone, if_pos id, none_or, Option.some.injEq] at hpayload
    subst hpayload hentry
    exact ⟨_, parseExports_main parsed, fun _ => rfl, by grind⟩

theorem loaded_code (id : s.id.toNat = 10) (fresh : l.seen.get 10 = false)
    (parsed : parseCode l.module l.functionType s.payload = .ok (code, s.payload.length)) :
    Loaded (done ++ [s]) { l with
      seen := l.seen.set 10 true
      module := { l.module with code } } := by
  have hnone := payloadOf_of_fresh h (by omega) (by omega) fresh
  refine ⟨seenLoaded_append h.seen id, ?_, ?_, ?_, ?_, fun _ => ?_⟩
  · grind [TypesLoaded, h.types]
  · grind [ImportsLoaded, h.imports]
  · grind [FunctionLoaded, h.function]
  · grind [EntryLoaded, h.entry]
  -- The verifier does not look at the module's own code field.
  rcases parseCode_verified parsed with ⟨index, hindex, hverified⟩
  have hext : l.module.Extends { l.module with code } :=
    Module.Extends.of_eq rfl rfl rfl (fun h => h)
  exact ⟨index, hindex, verifyBody_mono hext hverified⟩

/-- A section that declares neither types, imports, exports nor code keeps
    what is established about them. -/
theorem loaded_frame {profile memory : Bool} {data : Option DataSegment}
    (hid : s.id.toNat = 0 ∨ s.id.toNat = 5 ∨ s.id.toNat = 11)
    (hseen : SeenLoaded (done ++ [s]) seen) (hmemory : l.module.memory = true → memory = true) :
    Loaded (done ++ [s]) { l with seen, profile, module := { l.module with memory, data } } :=
  ⟨hseen, by grind [TypesLoaded, h.types], by grind [ImportsLoaded, h.imports],
    by grind [FunctionLoaded, h.function], by grind [EntryLoaded, h.entry],
    codeLoaded_frame h.code (by omega) (Module.Extends.of_eq rfl rfl rfl hmemory) rfl⟩

end Loaded

/-- A section keeps what the loader has established. -/
theorem load_loaded {l' : Loader} (h : Loaded done l) (hload : l.load s = .ok l') :
    Loaded (done ++ [s]) l' := by
  cases load_loads hload with
  | custom id | profile id =>
    exact loaded_frame h (.inl id) (seenLoaded_frame h.seen id) (fun h => h)
  | types id fresh parsed => exact loaded_types h id fresh parsed
  | imports id fresh parsed => exact loaded_imports h id fresh parsed
  | function id fresh parsed => exact loaded_function h id fresh parsed
  | exports id fresh parsed => exact loaded_exports h id fresh parsed
  | code id fresh parsed => exact loaded_code h id fresh parsed
  | memory id fresh _ =>
    exact loaded_frame h (.inr (.inl id)) (seenLoaded_append h.seen id) (fun _ => rfl)
  | data id fresh _ =>
    exact loaded_frame h (.inr (.inr id)) (seenLoaded_append h.seen id) (fun h => h)

end Step

theorem start_loaded : Loaded [] Loader.start := by
  refine ⟨fun id _ hlt => ?_, ⟨fun _ => ⟨rfl, rfl⟩, nofun⟩, fun _ => rfl, ⟨fun _ => rfl, nofun⟩,
    nofun, fun h => absurd rfl h⟩
  exact Slots.get_replicate false hlt

variable {image : List UInt8}

/-- What an accepted image went through: the whole list of its sections, and
    the checks after them. -/
theorem parse_loaded (h : Module.parse image = .ok m) :
    ∃ l, Loaded (sections image) l ∧ l.module = m ∧ l.entry = true ∧
      payloadOf (sections image) 1 ≠ none ∧ payloadOf (sections image) 3 ≠ none ∧
      payloadOf (sections image) 7 ≠ none ∧ payloadOf (sections image) 10 ≠ none := by
  rcases parse_loads h with ⟨l, hfold, hfinish⟩
  have hloaded := foldlM_history Loaded (fun _ _ _ _ => load_loaded) _ [] _ _ start_loaded hfold
  rw [nil_append] at hloaded
  simp [Loader.finish] at hfinish
  rcases hfinish with ⟨-, -, ⟨hentry, htypes, hfunction, hexports, hcode⟩, hmodule⟩
  have hcame : ∀ id, id ≠ 0 → id < 13 → l.seen.get id = true →
      payloadOf (sections image) id ≠ none := by
    intro id hne hlt hseen hnone
    rw [hloaded.seen id hne hlt, hnone] at hseen
    exact absurd hseen nofun
  exact ⟨l, hloaded, hmodule, hentry, hcame 1 (by omega) (by omega) htypes,
    hcame 3 (by omega) (by omega) hfunction, hcame 7 (by omega) (by omega) hexports,
    hcame 10 (by omega) (by omega) hcode⟩

/-- The function of a loaded module has the type its image declares, and its
    code is verified against the finished module. -/
theorem parse_verified (h : Module.parse image = .ok m) :
    ∃ index, (payloadOf (sections image) 3).bind functionIndex = some index ∧
      entrySignature image = some (m.types.get index) ∧ verifyBody m m.code index = .ok () := by
  rcases parse_loaded h with ⟨l, hloaded, rfl, _, htypes, hfunction, _, hcode⟩
  rcases ne_none_iff_exists'.mp htypes with ⟨declared, hdeclared⟩
  rcases ne_none_iff_exists'.mp hfunction with ⟨functions, hfunctions⟩
  rcases hloaded.function.2 functions hfunctions with ⟨index, hindex, hread, _⟩
  rcases hloaded.types.2 declared hdeclared with ⟨n, hparsed⟩
  rcases hloaded.code hcode with ⟨index', hindex', hverified⟩
  rw [hindex] at hindex'
  injection hindex' with hindex'
  rw [← hindex'] at hverified
  refine ⟨index, ?_, ?_, hverified⟩
  · rw [hfunctions, bind_some, hread]
  · change (payloadOf (sections image) 3).bind _ = _
    rw [hfunctions]
    change (functionIndex functions).bind _ = _
    rw [hread]
    change (payloadOf (sections image) 1).bind _ = _
    rw [hdeclared, bind_some, hparsed]
    rfl

/-- `norx_main` is the function after the imports, unless imports come after
    the exports. -/
theorem parse_entry (h : Module.parse image = .ok m) :
    (payloadOf (sections image) 7).bind mainIndex = some m.importCount ↔
      ¬ LateImports (sections image) := by
  rcases parse_loaded h with ⟨l, hloaded, rfl, hentry, _, _, hexports, _⟩
  rcases ne_none_iff_exists'.mp hexports with ⟨exports, hexports⟩
  rcases hloaded.entry exports hexports hentry with ⟨index, hindex, hearly, hlate⟩
  rw [hexports, bind_some, hindex, Option.some.injEq]
  constructor
  · intro hcount hlate'
    have hlt := hlate hlate'
    omega
  · exact hearly

/-- A loaded module conforms to the profile exactly when the image declares
    the type `() -> i32` for its function and no imports after the exports. -/
theorem parse_conforms_iff (image : List UInt8) (m : Module) (h : Module.parse image = .ok m) :
    Conforms image m ↔ (∃ signature, entrySignature image = some signature ∧ signature.IsEntry) ∧
      ¬ LateImports (sections image) := by
  rcases parse_verified h with ⟨index, hindex, hsignature, hverified⟩
  constructor
  · rintro ⟨hentry, index', hindex', hisEntry, _⟩
    rw [hindex] at hindex'
    injection hindex' with hindex'
    rw [← hindex'] at hisEntry
    exact ⟨⟨_, hsignature, hisEntry⟩, (parse_entry h).mp hentry⟩
  · rintro ⟨⟨signature, hdeclared, hisEntry⟩, hearly⟩
    rw [hsignature] at hdeclared
    injection hdeclared with hdeclared
    rw [← hdeclared] at hisEntry
    exact ⟨(parse_entry h).mpr hearly, index, hindex, hisEntry, hverified⟩

section Images

/-- The header and the profile section. -/
def imageHeader : List UInt8 :=
  magic ++ version ++ [0x00, 0x19, 0x0c] ++ profileName ++ profileMagic ++
    [0x01, 0x00, 0x00, 0x00, 0x00, 0x00, 0x00, 0x00]

/-- A type section with the one type `() -> i32`. -/
def entryType : List UInt8 := [0x01, 0x05, 0x01, 0x60, 0x00, 0x01, 0x7f]

/-- A type section with the types `() -> i32` and `(i32, i32) -> i32`. -/
def entryAndLogType : List UInt8 :=
  [0x01, 0x0b, 0x02, 0x60, 0x00, 0x01, 0x7f, 0x60, 0x02, 0x7f, 0x7f, 0x01, 0x7f]

/-- The import of `log` with the second type. -/
def logImport : List UInt8 :=
  [0x04] ++ norxSpace ++ [0x03, 0x6c, 0x6f, 0x67, 0x00, 0x01]

/-- The function has the first type, and `norx_main` has the index. -/
def functionAndExport (index : UInt8) : List UInt8 :=
  [0x03, 0x02, 0x01, 0x00] ++ [0x07, 0x0d, 0x01, 0x09] ++ norxMain ++ [0x00, index]

/-- A code section with a short body. -/
def codeSection (body : List UInt8) : List UInt8 :=
  [0x0a, body.length.toUInt8 + 2, 0x01, body.length.toUInt8] ++ body

/-- An image with the type `() -> i32` and the body `i32.const 7 end`. -/
def plainImage : List UInt8 :=
  imageHeader ++ entryType ++ functionAndExport 0 ++ codeSection [0x00, 0x41, 0x07, 0x0b]

/-- The same with the import of `log` declared after the exports. -/
def lateImage : List UInt8 :=
  imageHeader ++ entryAndLogType ++ functionAndExport 0 ++ [0x02, 0x0c, 0x01] ++ logImport ++
    codeSection [0x00, 0x41, 0x07, 0x0b]

/-- An image with the type `(i64) -> i64` and the body `i64.const 0 end`. -/
def typedImage : List UInt8 :=
  imageHeader ++ [0x01, 0x06, 0x01, 0x60, 0x01, 0x7e, 0x01, 0x7e] ++ functionAndExport 0 ++
    codeSection [0x00, 0x42, 0x00, 0x0b]

/-- What is read off a loaded module was read off an accepted image. -/
theorem parse_of_map {α : Type} {f : Module → α} {a : α} (h : (Module.parse image).map f = .ok a) :
    ∃ m, Module.parse image = .ok m ∧ f m = a := by
  cases hparse : Module.parse image with
  | error e =>
    rw [hparse] at h
    exact absurd h nofun
  | ok m =>
    rw [hparse] at h
    injection h with h
    exact ⟨m, rfl, h⟩

theorem parse_conforms_iff_plain :
    ∃ m, Module.parse plainImage = .ok m ∧ (Conforms plainImage m ↔
      (∃ signature, entrySignature plainImage = some signature ∧ signature.IsEntry) ∧
        ¬ LateImports (sections plainImage)) := by
  have haccepted : (Module.parse plainImage).map Module.importCount = .ok 0 := by decide +kernel
  rcases parse_of_map haccepted with ⟨m, hparse, _⟩
  exact ⟨m, hparse, parse_conforms_iff plainImage m hparse⟩

/-- Both images are accepted. In the first `norx_main` has index zero, which is
    the import; in the second it has another type than `() -> i32`. -/
theorem accepted_nonconforming :
    (∃ m, Module.parse lateImage = .ok m ∧
      (payloadOf (sections lateImage) 7).bind mainIndex = some 0 ∧ m.importCount = 1 ∧
      ¬ Conforms lateImage m) ∧
    (∃ m, Module.parse typedImage = .ok m ∧
      (payloadOf (sections typedImage) 3).bind functionIndex = some 0 ∧
      m.types.get 0 = { parameters := (.i64, .i32), parameterCount := 1, result := some .i64 } ∧
      ¬ Conforms typedImage m) := by
  have hlate : (Module.parse lateImage).map Module.importCount = .ok 1 := by decide +kernel
  have hmain : (payloadOf (sections lateImage) 7).bind mainIndex = some 0 := by decide +kernel
  have htyped : (Module.parse typedImage).map (fun m => m.types.get 0) = .ok
      { parameters := (.i64, .i32), parameterCount := 1, result := some .i64 } := by decide +kernel
  have hindex : (payloadOf (sections typedImage) 3).bind functionIndex = some 0 := by
    decide +kernel
  rcases parse_of_map hlate with ⟨m, hm, himports⟩
  rcases parse_of_map htyped with ⟨m', hm', htypes⟩
  refine ⟨⟨m, hm, hmain, himports, fun hconforms => ?_⟩, ⟨m', hm', hindex, htypes,
    fun hconforms => ?_⟩⟩
  · have hentry := hconforms.entry
    rw [himports] at hentry
    exact absurd hentry (by decide)
  · rcases hconforms.function with ⟨index, hread, hsignature, _⟩
    rw [hindex] at hread
    injection hread with hread
    rw [← hread, htypes] at hsignature
    exact absurd hsignature.1 (by decide)

end Images

end Wasm

end Norx
