import Norx.Wasm.Verify

/-!
# The Loader

`Module::parse`. An image is a header and a list of sections, each an id and a
payload. The loader handles the sections in the order they come in, and most
checks it makes on one are against the module as built so far. Each kind of
section may come once, custom sections aside, and any kind may come first.

The methods of the source that fill in the module write one or two of its
fields. Here they return what they write, and the loader puts it in place.

`sections` is the list of sections of an image, read with the loader's own
reader, and `parse_loads` says that an accepted image was accepted section by
section. It is what statements about the order of sections are made of.

## Main definitions

* `parseTypes`, `parseImports`, `parseMemory`, `parseData`, `parseExports`,
  `parseProfile`: The payloads.
* `Module.parse`: The loader.

## Theorems

* `load_loads`: Loading a section is one of those listed.
* `parse_loads`: An accepted image is accepted section by section.
-/

namespace Norx

namespace Wasm

/-- `\0asm`. -/
def magic : List UInt8 := [0x00, 0x61, 0x73, 0x6d]

def version : List UInt8 := [0x01, 0x00, 0x00, 0x00]

/-- `norx`. -/
def norxSpace : List UInt8 := [0x6e, 0x6f, 0x72, 0x78]

/-- `norx_main`. -/
def norxMain : List UInt8 := [0x6e, 0x6f, 0x72, 0x78, 0x5f, 0x6d, 0x61, 0x69, 0x6e]

/-- `norx.profile`. -/
def profileName : List UInt8 :=
  [0x6e, 0x6f, 0x72, 0x78, 0x2e, 0x70, 0x72, 0x6f, 0x66, 0x69, 0x6c, 0x65]

/-- `NRXV`. -/
def profileMagic : List UInt8 := [0x4e, 0x52, 0x58, 0x56]

/-- The imports there are: `log`, `fd_read`, `fd_write` and `exit`. -/
def importNamed (name : List UInt8) : Option Import :=
  if name = [0x6c, 0x6f, 0x67] then some .log
  else if name = [0x66, 0x64, 0x5f, 0x72, 0x65, 0x61, 0x64] then some .fdRead
  else if name = [0x66, 0x64, 0x5f, 0x77, 0x72, 0x69, 0x74, 0x65] then some .fdWrite
  else if name = [0x65, 0x78, 0x69, 0x74] then some .exit
  else none

def validImport (target : Import) (signature : Signature) : Bool :=
  match target with
  | .log | .fdRead | .fdWrite =>
    decide (signature.parameterCount = 2) && decide (signature.parameters = (.i32, .i32)) &&
      decide (signature.result = some .i32)
  | .exit =>
    decide (signature.parameterCount = 1) && decide (signature.parameters.1 = .i32) &&
      decide (signature.result = none)

def parseParameters (payload : List UInt8) (position : Nat) :
    Nat → Except Error ((ValType × ValType) × Nat)
  | 0 => pure ((.i32, .i32), position)
  | 1 => do
    let (first, position) ← Cursor.valueType payload position
    pure ((first, .i32), position)
  | _ => do
    let (first, position) ← Cursor.valueType payload position
    let (second, position) ← Cursor.valueType payload position
    pure ((first, second), position)

def parseResult (payload : List UInt8) (position count : Nat) :
    Except Error (Option ValType × Nat) :=
  if count = 0 then pure (none, position)
  else do
    let (result, position) ← Cursor.valueType payload position
    pure (some result, position)

def parseSignature (payload : List UInt8) (position : Nat) : Except Error (Signature × Nat) := do
  let (form, position) ← Cursor.byte payload position
  if form ≠ 0x60 then throw .invalidType
  else
    let (parameterCount, position) ← Cursor.count payload position 2
    let (parameters, position) ← parseParameters payload position parameterCount
    let (resultCount, position) ← Cursor.count payload position 1
    let (result, position) ← parseResult payload position resultCount
    pure ({ parameters, parameterCount, result }, position)

/-- The loop of `parse_types`, with the number of types left and the index of
    the next. -/
def parseTypesLoop (payload : List UInt8) :
    Nat → Nat → Slots maxTypes Signature → Nat → Except Error (Slots maxTypes Signature × Nat)
  | 0, _, types, position => pure (types, position)
  | left + 1, index, types, position => do
    let (signature, position) ← parseSignature payload position
    parseTypesLoop payload left (index + 1) (types.set index signature) position

/-- The type table, the number of types and the position after them. -/
def parseTypes (types : Slots maxTypes Signature) (payload : List UInt8) :
    Except Error (Slots maxTypes Signature × Nat × Nat) := do
  let (count, position) ← Cursor.count payload 0 maxTypes
  let (types, position) ← parseTypesLoop payload count 0 types position
  pure (types, count, position)

def Module.typeIndex (module : Module) (index : BitVec 32) : Except Error Nat :=
  if index.toNat < module.typeCount then pure index.toNat else throw .invalidType

def parseImport (module : Module) (payload : List UInt8) (position : Nat) :
    Except Error (Import × Nat) := do
  let (space, position) ← Cursor.name payload position
  if space ≠ norxSpace then throw .invalidImport
  else
    let (name, position) ← Cursor.name payload position
    match importNamed name with
    | none => throw .invalidImport
    | some target =>
      let (kind, position) ← Cursor.byte payload position
      if kind ≠ 0 then throw .invalidImport
      else
        let (index, position) ← Cursor.lebU32 payload position
        let typeIndex ← module.typeIndex index
        if validImport target (module.types.get typeIndex) = false then throw .invalidImport
        else pure (target, position)

/-- The loop of `parse_imports`. -/
def parseImportsLoop (module : Module) (payload : List UInt8) :
    Nat → Nat → Slots maxImports (Option Import) → Nat →
    Except Error (Slots maxImports (Option Import) × Nat)
  | 0, _, imports, position => pure (imports, position)
  | left + 1, index, imports, position => do
    let (target, position) ← parseImport module payload position
    parseImportsLoop module payload left (index + 1) (imports.set index (some target)) position

/-- The import table, the number of imports and the position after them. -/
def parseImports (module : Module) (payload : List UInt8) :
    Except Error (Slots maxImports (Option Import) × Nat × Nat) := do
  let (count, position) ← Cursor.count payload 0 maxImports
  let (imports, position) ← parseImportsLoop module payload count 0 module.imports position
  pure (imports, count, position)

def parseMemory (payload : List UInt8) : Except Error Nat := do
  let (count, position) ← Cursor.count payload 0 1
  if count ≠ 1 then throw .invalidMemory
  else
    let (flags, position) ← Cursor.lebU32 payload position
    if flags ≠ 0 then throw .invalidMemory
    else
      let (pages, position) ← Cursor.lebU32 payload position
      if 1 < pages.toNat then throw .invalidMemory else pure position

def parseData (payload : List UInt8) : Except Error (DataSegment × Nat) := do
  let (count, position) ← Cursor.count payload 0 1
  if count ≠ 1 then throw .invalidMemory
  else
    let (memory, position) ← Cursor.lebU32 payload position
    if memory ≠ 0 then throw .invalidMemory
    else
      let (opcode, position) ← Cursor.byte payload position
      if opcode ≠ 0x41 then throw .invalidMemory
      else
        -- An offset is a signed number that must not be negative.
        let (offset, position) ← Cursor.lebI32 payload position
        if offset.toInt < 0 then throw .invalidMemory
        else
          let (opcode, position) ← Cursor.byte payload position
          if opcode ≠ 0x0b then throw .invalidMemory
          else
            let (length, position) ← Cursor.lebU32 payload position
            let (bytes, position) ← Cursor.slice payload position length.toNat
            if maxMemory < offset.toNat + length.toNat then throw .invalidMemory
            else pure ({ offset := offset.toNat, bytes }, position)

/-- One entry of the export section. -/
structure Export where
  name : List UInt8
  kind : UInt8
  index : Nat
  deriving DecidableEq, Repr

def readExport (payload : List UInt8) (position : Nat) : Except Error (Export × Nat) := do
  let (name, position) ← Cursor.name payload position
  let (kind, position) ← Cursor.byte payload position
  let (index, position) ← Cursor.lebU32 payload position
  pure ({ name, kind, index := index.toNat }, position)

/-- The loop of `parse_exports`: whether `norx_main` was among the exports. -/
def parseExportsLoop (module : Module) (payload : List UInt8) :
    Nat → Bool → Nat → Except Error (Bool × Nat)
  | 0, entry, position => pure (entry, position)
  | left + 1, entry, position => do
    let (item, position) ← readExport payload position
    if item.name = norxMain then
      -- The imports read so far are the ones counted.
      if item.kind ≠ 0 ∨ item.index ≠ module.importCount ∨ entry = true then
        throw .invalidExport
      else parseExportsLoop module payload left true position
    else if item.kind = 2 ∧ item.index = 0 then
      if module.memory = false then throw .invalidExport
      else parseExportsLoop module payload left entry position
    else throw .invalidExport

def parseExports (module : Module) (payload : List UInt8) : Except Error (Bool × Nat) := do
  let (count, position) ← Cursor.count payload 0 4
  parseExportsLoop module payload count false position

def parseProfile (payload : List UInt8) : Except Error Bool := do
  let (name, position) ← Cursor.name payload 0
  if name ≠ profileName then pure false
  else
    let (tag, position) ← Cursor.slice payload position 4
    if tag ≠ profileMagic then throw .invalidProfile
    else
      let (major, position) ← Cursor.slice payload position 2
      if major ≠ [1, 0] then throw .invalidProfile
      else
        let (minor, position) ← Cursor.slice payload position 2
        if minor ≠ [0, 0] then throw .invalidProfile
        else
          let (flags, position) ← Cursor.slice payload position 4
          if flags ≠ [0, 0, 0, 0] ∨ position ≠ payload.length then throw .invalidProfile
          else pure true

/-- The index of the one function's type. -/
def parseFunction (module : Module) (payload : List UInt8) : Except Error (Nat × Nat) := do
  let (count, position) ← Cursor.count payload 0 1
  if count ≠ 1 then throw .invalidCode
  else
    let (index, position) ← Cursor.lebU32 payload position
    let typeIndex ← module.typeIndex index
    pure (typeIndex, position)

/-- The one function's body, verified against the module as it is. -/
def parseCode (module : Module) (functionType : Option Nat) (payload : List UInt8) :
    Except Error (List UInt8 × Nat) := do
  let (count, position) ← Cursor.count payload 0 1
  if count ≠ 1 then throw .invalidCode
  else
    match functionType with
    | none => throw .invalidCode
    | some typeIndex =>
      let (length, position) ← Cursor.lebU32 payload position
      let (body, position) ← Cursor.slice payload position length.toNat
      -- Against what has been declared up to here.
      verifyBody module body typeIndex
      pure (body, position)

/-- The loader between two sections. -/
structure Loader where
  module : Module
  seen : Slots 13 Bool
  profile : Bool
  entry : Bool
  functionType : Option Nat

def Module.initial : Module where
  code := []
  types := Slots.replicate maxTypes Signature.empty
  typeCount := 0
  importCount := 0
  imports := Slots.replicate maxImports none
  memory := false
  data := none

def Loader.start : Loader where
  module := Module.initial
  seen := Slots.replicate 13 false
  profile := false
  entry := false
  functionType := none

structure Section where
  id : UInt8
  payload : List UInt8
  deriving DecidableEq, Repr

/-- The dispatch on the id of a section that has not been seen before. The
    second component is where in the payload its reader stopped. -/
def Loader.dispatch (l : Loader) (s : Section) : Except Error (Loader × Nat) :=
  match s.id.toNat with
  | 1 => do
    let (types, typeCount, position) ← parseTypes l.module.types s.payload
    pure ({ l with module := { l.module with types, typeCount } }, position)
  | 2 => do
    let (imports, importCount, position) ← parseImports l.module s.payload
    pure ({ l with module := { l.module with imports, importCount } }, position)
  | 3 => do
    let (typeIndex, position) ← parseFunction l.module s.payload
    pure ({ l with functionType := some typeIndex }, position)
  | 5 => do
    let position ← parseMemory s.payload
    pure ({ l with module := { l.module with memory := true } }, position)
  | 7 => do
    let (entry, position) ← parseExports l.module s.payload
    pure ({ l with entry }, position)
  | 10 => do
    let (code, position) ← parseCode l.module l.functionType s.payload
    pure ({ l with module := { l.module with code } }, position)
  | 11 => do
    let (data, position) ← parseData s.payload
    pure ({ l with module := { l.module with data := some data } }, position)
  | _ => throw .unsupportedSection

/-- One section. -/
def Loader.load (l : Loader) (s : Section) : Except Error Loader :=
  if s.id = 0 then do
    let isProfile ← parseProfile s.payload
    if isProfile = true then
      if l.profile = true then throw .duplicateSection else pure { l with profile := true }
    else pure l
  else if 12 < s.id.toNat then throw .unsupportedSection
  else if l.seen.get s.id.toNat = true then throw .duplicateSection
  -- The section is marked as seen before it is read.
  else do
    let (l, position) ← Loader.dispatch { l with seen := l.seen.set s.id.toNat true } s
    if position ≠ s.payload.length then throw .invalidSection else pure l

def readSection (image : List UInt8) (position : Nat) : Except Error (Section × Nat) := do
  let (id, position) ← Cursor.byte image position
  let (length, position) ← Cursor.lebU32 image position
  let (payload, position) ← Cursor.slice image position length.toNat
  pure ({ id, payload }, position)

/-- The loop over the sections. Every turn takes at least one byte. -/
def loadLoop (image : List UInt8) : Nat → Nat → Loader → Except Error Loader
  | 0, _, l => pure l
  | fuel + 1, position, l =>
    if position = image.length then pure l
    else do
      let (s, position) ← readSection image position
      let l ← l.load s
      loadLoop image fuel position l

/-- The checks after the last section. -/
def Loader.finish (l : Loader) : Except Error Module :=
  if l.module.data.isSome = true ∧ l.module.memory = false then throw .invalidMemory
  else if l.profile = false then throw .missingProfile
  else if l.entry = false ∨ l.seen.get 1 = false ∨ l.seen.get 3 = false ∨ l.seen.get 7 = false ∨
      l.seen.get 10 = false then throw .invalidExport
  else pure l.module

def Module.parse (image : List UInt8) : Except Error Module :=
  if maxModule < image.length then throw .moduleTooLarge
  else if image.take 4 ≠ magic then throw .badMagic
  else if (image.drop 4).take 4 ≠ version then throw .badVersion
  else do
    let l ← loadLoop image image.length 8 Loader.start
    l.finish

/-- The sections of an image from a position on, up to the first that is not
    well formed. -/
def sectionsLoop (image : List UInt8) : Nat → Nat → List Section
  | 0, _ => []
  | fuel + 1, position =>
    match readSection image position with
    | .error _ => []
    | .ok (s, position) => s :: sectionsLoop image fuel position

/-- The sections of an image. -/
def sections (image : List UInt8) : List Section :=
  sectionsLoop image image.length 8

/-- What one section can do. -/
inductive Loads (l : Loader) (s : Section) : Loader → Prop where
  | custom (id : s.id.toNat = 0) : Loads l s l
  | profile (id : s.id.toNat = 0) (fresh : l.profile = false) : Loads l s { l with profile := true }
  | types {types : Slots maxTypes Signature} {typeCount : Nat} (id : s.id.toNat = 1)
      (fresh : l.seen.get 1 = false)
      (parsed : parseTypes l.module.types s.payload = .ok (types, typeCount, s.payload.length)) :
      Loads l s { l with
        seen := l.seen.set 1 true
        module := { l.module with types, typeCount } }
  | imports {imports : Slots maxImports (Option Import)} {importCount : Nat}
      (id : s.id.toNat = 2) (fresh : l.seen.get 2 = false)
      (parsed : parseImports l.module s.payload = .ok (imports, importCount, s.payload.length)) :
      Loads l s { l with
        seen := l.seen.set 2 true
        module := { l.module with imports, importCount } }
  | function {typeIndex : Nat} (id : s.id.toNat = 3) (fresh : l.seen.get 3 = false)
      (parsed : parseFunction l.module s.payload = .ok (typeIndex, s.payload.length)) :
      Loads l s { l with seen := l.seen.set 3 true, functionType := some typeIndex }
  | memory (id : s.id.toNat = 5) (fresh : l.seen.get 5 = false)
      (parsed : parseMemory s.payload = .ok s.payload.length) :
      Loads l s { l with seen := l.seen.set 5 true, module := { l.module with memory := true } }
  | exports {entry : Bool} (id : s.id.toNat = 7) (fresh : l.seen.get 7 = false)
      (parsed : parseExports l.module s.payload = .ok (entry, s.payload.length)) :
      Loads l s { l with seen := l.seen.set 7 true, entry }
  | code {code : List UInt8} (id : s.id.toNat = 10) (fresh : l.seen.get 10 = false)
      (parsed : parseCode l.module l.functionType s.payload = .ok (code, s.payload.length)) :
      Loads l s { l with seen := l.seen.set 10 true, module := { l.module with code } }
  | data {data : DataSegment} (id : s.id.toNat = 11) (fresh : l.seen.get 11 = false)
      (parsed : parseData s.payload = .ok (data, s.payload.length)) :
      Loads l s { l with
        seen := l.seen.set 11 true
        module := { l.module with data := some data } }

/-- A dispatch that returns returns one loader and one position. -/
theorem dispatch_loads {l l' : Loader} {s : Section} (fresh : l.seen.get s.id.toNat = false)
    (h : Loader.dispatch { l with seen := l.seen.set s.id.toNat true } s
      = .ok (l', s.payload.length)) : Loads l s l' := by
  -- One case for each id the source knows; on every other it throws.
  rw [Loader.dispatch] at h
  split at h <;> simp_all only [except_bind_eq_ok, pure_eq_ok, throw_ne_ok, Prod.exists, Prod.mk.injEq]
  · next id =>
      rcases h with ⟨types, typeCount, position, parsed, rfl, rfl⟩
      exact Loads.types id fresh parsed
  · next id =>
      rcases h with ⟨imports, importCount, position, parsed, rfl, rfl⟩
      exact Loads.imports id fresh parsed
  · next id =>
      rcases h with ⟨typeIndex, position, parsed, rfl, rfl⟩
      exact Loads.function id fresh parsed
  · next id =>
      rcases h with ⟨position, parsed, rfl, rfl⟩
      exact Loads.memory id fresh parsed
  · next id =>
      rcases h with ⟨entry, position, parsed, rfl, rfl⟩
      exact Loads.exports id fresh parsed
  · next id =>
      rcases h with ⟨code, position, parsed, rfl, rfl⟩
      exact Loads.code id fresh parsed
  · next id =>
      rcases h with ⟨data, position, parsed, rfl, rfl⟩
      exact Loads.data id fresh parsed

/-- Loading a section is one of those listed. -/
theorem load_loads {l l' : Loader} {s : Section} (h : l.load s = .ok l') : Loads l s l' := by
  rw [Loader.load] at h
  split at h
  -- A custom section changes nothing unless it is the profile.
  · next hid =>
      have id : s.id.toNat = 0 := by rw [hid]; rfl
      grind [Loads.profile, Loads.custom]
  · simp only [ite_throw_eq_ok, except_bind_eq_ok, pure_eq_ok, Prod.exists, not_not] at h
    rcases h with ⟨-, fresh, l'', position, hdispatch, hposition, rfl⟩
    -- The reader stopped at the end of the payload.
    rw [hposition] at hdispatch
    exact dispatch_loads (Bool.not_eq_true _ ▸ fresh) hdispatch

/-- The loop handles the sections of the image one after the other. -/
theorem loadLoop_sections (image : List UInt8) : ∀ (fuel position : Nat) (l l' : Loader),
    loadLoop image fuel position l = .ok l' →
    (sectionsLoop image fuel position).foldlM Loader.load l = .ok l' := by
  intro fuel
  induction fuel with
  | zero => exact fun _ _ _ h => h
  | succ fuel ih =>
    intro position l l' h
    rw [loadLoop] at h
    rw [sectionsLoop]
    split at h
    · next hend =>
        -- At the end of the image no section can be read, so the list ends too.
        have hread : readSection image position = .error .truncated := by
          simp [readSection, Cursor.byte, hend]
          rfl
        rw [hread]
        exact h
    · simp only [except_bind_eq_ok, Prod.exists] at h
      rcases h with ⟨s, next, hread, middle, hload, h⟩
      simpa [hread, hload] using ih next middle l' h

/-- An accepted image is accepted section by section. -/
theorem parse_loads {image : List UInt8} {m : Module} (h : Module.parse image = .ok m) :
    ∃ l, (sections image).foldlM Loader.load Loader.start = .ok l ∧ l.finish = .ok m := by
  simp only [Module.parse, ite_throw_eq_ok, except_bind_eq_ok] at h
  rcases h with ⟨-, -, -, l, hloop, h⟩
  exact ⟨l, loadLoop_sections image _ 8 _ l hloop, h⟩

end Wasm

end Norx
