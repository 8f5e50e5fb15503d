import Norx.Lib.Utf8
import Norx.Vfs.Path

/-!
# Paths and Their Components

`parse_path` read as a language. The parts of a path are what stands between its
slashes, and the loop of `parse_path` is a scan over them from left to right:
nothing and `.` are dropped, `..` takes away the last name held, and any other part
is held. A path is accepted exactly if it begins with a slash, is at most `MAX_PATH`
bytes, has no NUL and no part too long for a name, and the scan never holds more
than `MAX_COMPONENTS` names, not even on the way.

So a component is never empty, never `.` or `..`, and holds no slash and no NUL, and
writing a slash in front of each gives a path that parses to the same list again, as
long as it is at most `MAX_PATH` bytes. Parsing never makes a path longer.

## Main definitions

* `scan`, `Fits`: What `parse_path` is for.

## Theorems

* `parseComponents_iff`: The loop of `parse_path` is the scan.
* `path_normalised`: Which paths are accepted, with which components.
* `parsePath_plain`, `parsePath_length`, `parsePath_cost`, `parsePath_utf8`:
  What the components of an accepted path are.
* `parsePath_pathOf`: Components that fit parse back.
* `spell_injective`: Different components make different paths.
-/

namespace Norx

namespace Vfs

open List

/-- What every component looks like. -/
structure Name.Plain (name : Name) : Prop where
  nonempty : name.bytes ≠ []
  no_slash : slash ∉ name.bytes
  no_nul : (0 : UInt8) ∉ name.bytes
  ne_dot : name.bytes ≠ [dot]
  ne_dotdot : name.bytes ≠ [dot, dot]

theorem Name.bytes_injective : Function.Injective Name.bytes := by
  rintro ⟨bytes, hlength⟩ ⟨bytes', hlength'⟩ rfl
  rfl

/-- The components, each with a slash in front. -/
def spell (names : List Name) : Path := names.flatMap (fun name => slash :: name.bytes)

/-- The path made of a list of components. -/
def pathOf (names : List Name) : Path := if names = [] then [slash] else spell names

theorem spell_append (names names' : List Name) :
    spell (names ++ names') = spell names ++ spell names' :=
  flatMap_append

theorem spell_cons (name : Name) (names : List Name) :
    spell (name :: names) = slash :: (name.bytes ++ spell names) := rfl

theorem spell_concat (names : List Name) (name : Name) :
    spell (names ++ [name]) = spell names ++ slash :: name.bytes := by
  rw [spell_append]
  exact congrArg (spell names ++ slash :: ·) (append_nil _)

theorem pathOf_of_ne {names : List Name} (h : names ≠ []) : pathOf names = spell names := if_neg h

theorem length_le_spell (names : List Name) : names.length ≤ (spell names).length := by
  induction names with
  | nil => exact Nat.le_refl _
  | cons name rest ih =>
    rw [spell_cons, length_cons, length_cons, length_append]
    omega

/-! ### The scan -/

/-- One part of a path. A part that is too long for a name makes none. -/
def scan (held : List Name) (part : List UInt8) : List Name :=
  if part = [] ∨ part = [dot] then held
  else if part = [dot, dot] then held.dropLast
  else if h : part.length ≤ nameMax then held ++ [{ bytes := part, length_le := h }]
  else held

/-- No part is too long, and there is room for all names that are held at any time. -/
def Fits (held : List Name) (parts : List (List UInt8)) : Prop :=
  (∀ part ∈ parts, part.length ≤ nameMax) ∧
    ∀ k, ((parts.take k).foldl scan held).length ≤ maxComponents

variable {held names : List Name} {part bytes : List UInt8} {parts : List (List UInt8)}

theorem fits_cons : Fits held (part :: parts) ↔
    held.length ≤ maxComponents ∧ part.length ≤ nameMax ∧ Fits (scan held part) parts := by
  rw [Fits, forall_mem_cons]
  constructor
  · rintro ⟨⟨hpart, hparts⟩, hroom⟩
    exact ⟨hroom 0, hpart, hparts, fun k => hroom (k + 1)⟩
  · rintro ⟨hheld, hpart, hparts, hroom⟩
    refine ⟨⟨hpart, hparts⟩, fun k => ?_⟩
    cases k with
    | zero => exact hheld
    | succ k => exact hroom k

theorem fits_nil : Fits held [] ↔ held.length ≤ maxComponents := by
  simp [Fits]

/-- A name that is held at the end was held before, or is one of the parts. -/
theorem mem_foldl_scan {name : Name} : ∀ {held : List Name}, name ∈ parts.foldl scan held →
    name ∈ held ∨ name.bytes ∈ parts ∧ name.bytes ≠ [] ∧ name.bytes ≠ [dot] ∧
      name.bytes ≠ [dot, dot] := by
  induction parts with
  | nil => exact .inl
  | cons part parts ih =>
    intro held hname
    rcases ih hname with hscan | ⟨hmem, hkind⟩
    · unfold scan at hscan
      split_ifs at hscan with hdrop hback hlength
      · exact .inl hscan
      · exact .inl (mem_of_mem_dropLast hscan)
      · rcases mem_append.mp hscan with hheld | hnew
        · exact .inl hheld
        · rw [mem_singleton.mp hnew]
          rw [not_or] at hdrop
          exact .inr ⟨mem_cons_self, hdrop.1, hdrop.2, hback⟩
      · exact .inl hscan
    · exact .inr ⟨mem_cons_of_mem _ hmem, hkind⟩

/-- Scanning plain names holds them all. -/
theorem foldl_scan_plain (h : ∀ name ∈ names, name.Plain) (held : List Name) :
    (names.map Name.bytes).foldl scan held = held ++ names := by
  induction names generalizing held with
  | nil => exact (append_nil _).symm
  | cons name names ih =>
    rcases forall_mem_cons.mp h with ⟨hname, hnames⟩
    have hscan : scan held name.bytes = held ++ [name] := by
      rw [scan, if_neg (not_or.mpr ⟨hname.nonempty, hname.ne_dot⟩), if_neg hname.ne_dotdot,
        dif_pos name.length_le]
    rw [map_cons, foldl_cons, hscan, ih hnames, append_assoc]
    rfl

/-- A part takes no more room spelled out than in the path. -/
theorem spell_foldl_scan (held : List Name) (parts : List (List UInt8)) :
    (spell (parts.foldl scan held)).length ≤
      (spell held).length + (parts.map (·.length + 1)).sum := by
  induction parts generalizing held with
  | nil => exact Nat.le_refl _
  | cons part parts ih =>
    have hone : (spell (scan held part)).length ≤ (spell held).length + (part.length + 1) := by
      unfold scan
      split_ifs
      · exact Nat.le_add_right _ _
      · rcases eq_nil_or_concat' held with rfl | ⟨init, last, rfl⟩
        · exact Nat.zero_le _
        · rw [dropLast_concat, spell_concat, length_append]
          omega
      · rw [spell_concat, length_append, length_cons]
      · exact Nat.le_add_right _ _
    have hrest := ih (scan held part)
    rw [foldl_cons, map_cons, sum_cons]
    omega

/-! ### The parts of a path -/

/-- Bytes without a slash are one part; others are cut at their first slash. -/
theorem cut_induction {motive : List UInt8 → Prop} (last : ∀ part, slash ∉ part → motive part)
    (more : ∀ part rest, slash ∉ part → motive rest → motive (part ++ slash :: rest))
    (bytes : List UInt8) : motive bytes := by
  induction hn : bytes.length using Nat.strong_induction_on generalizing bytes with
  | h n ih =>
    by_cases hslash : slash ∈ bytes
    · rcases eq_append_cons_of_mem hslash with ⟨part, rest, rfl, hpart⟩
      refine more part rest hpart (ih rest.length ?_ rest rfl)
      rw [length_append, length_cons] at hn
      omega
    · exact last bytes hslash

theorem splitOn_slash (bytes : List UInt8) :
    (slash :: bytes).splitOn slash = [] :: bytes.splitOn slash :=
  splitOn_append_cons_self_of_not_mem not_mem_nil bytes

/-- The parts hold no slash, and nothing that is not in the path. -/
theorem mem_splitOn : ∀ {part : List UInt8}, part ∈ bytes.splitOn slash →
    slash ∉ part ∧ ∀ b ∈ part, b ∈ bytes := by
  induction bytes using cut_induction with
  | last bytes hslash =>
    rw [splitOn_eq_singleton hslash]
    intro part hpart
    rw [mem_singleton.mp hpart]
    exact ⟨hslash, fun _ hb => hb⟩
  | more first rest hslash ih =>
    rw [splitOn_append_cons_self_of_not_mem hslash]
    intro part hpart
    rcases mem_cons.mp hpart with rfl | hpart
    · exact ⟨hslash, fun _ hb => mem_append_left _ hb⟩
    · exact ⟨(ih hpart).1, fun b hb =>
        mem_append_right _ (mem_cons_of_mem _ ((ih hpart).2 b hb))⟩

theorem sum_splitOn (bytes : List UInt8) :
    ((bytes.splitOn slash).map (·.length + 1)).sum = bytes.length + 1 := by
  induction bytes using cut_induction with
  | last bytes hslash => rw [splitOn_eq_singleton hslash, map_singleton, sum_singleton]
  | more first rest hslash ih =>
    rw [splitOn_append_cons_self_of_not_mem hslash, map_cons, sum_cons, ih,
      length_append, length_cons]
    omega

/-- The parts of text are text. -/
theorem splitOn_utf8 (h : Utf8 bytes) : ∀ part ∈ bytes.splitOn slash, Utf8 part := by
  induction bytes using cut_induction with
  | last bytes hslash =>
    rw [splitOn_eq_singleton hslash]
    exact forall_mem_singleton.mpr h
  | more first rest hslash ih =>
    rcases utf8_split (by decide) h with ⟨hfirst, hrest⟩
    rw [splitOn_append_cons_self_of_not_mem hslash]
    exact forall_mem_cons.mpr ⟨hfirst, ih hrest⟩

theorem splitOn_spell (h : ∀ name ∈ names, name.Plain) :
    (spell names).splitOn slash = [] :: names.map Name.bytes := by
  induction names using List.reverseRecOn with
  | nil => rfl
  | append_singleton names name ih =>
    rcases forall_mem_append.mp h with ⟨hnames, hname⟩
    rw [spell_concat, splitOn_append_cons_self, ih hnames,
      splitOn_eq_singleton (hname name (mem_singleton_self _)).no_slash, map_append]
    rfl

/-! ### The loop -/

/-- Leading slashes are skipped. -/
theorem parseComponents_slash (fuel : Nat) (bytes : List UInt8) (components : List Name) :
    parseComponents fuel (slash :: bytes) components = parseComponents fuel bytes components := by
  cases fuel with
  | zero => rfl
  | succ fuel =>
    have hskip : (slash :: bytes).dropWhile (· == slash) = bytes.dropWhile (· == slash) :=
      dropWhile_cons_of_pos (p := (· == slash)) (beq_self_eq_true slash)
    rw [parseComponents, parseComponents, hskip]

/-- The first part: the loop goes on after it with what the scan holds then. -/
theorem parseComponents_part {rest : List UInt8} {fuel : Nat} {components : List Name}
    (hslash : slash ∉ part) (hrest : rest = [] ∨ ∃ more, rest = slash :: more)
    (hfuel : (part ++ rest).length ≤ fuel) (hroom : components.length ≤ maxComponents) :
    ∃ fuel', rest.length ≤ fuel' ∧ ∀ names,
      parseComponents fuel (part ++ rest) components = .ok names ↔
        0 ∉ part ∧ part.length ≤ nameMax ∧ (scan components part).length ≤ maxComponents ∧
          parseComponents fuel' rest (scan components part) = .ok names := by
  by_cases hnil : part = []
  · subst hnil
    have hscan : scan components [] = components := if_pos (.inl rfl)
    rw [hscan, nil_append]
    refine ⟨fuel, hfuel, fun names => ?_⟩
    simp [hroom]
  have hall : ∀ b ∈ part, (b != slash) = true := by
    intro b hb
    rw [bne_iff_ne]
    rintro rfl
    exact hslash hb
  have hpart : (part ++ rest).takeWhile (· != slash) = part := by
    rw [takeWhile_append_of_pos hall]
    rcases hrest with rfl | ⟨more, rfl⟩
    · exact append_nil _
    · exact append_nil _
  have hafter : (part ++ rest).dropWhile (· != slash) = rest := by
    rw [dropWhile_append_of_pos hall]
    rcases hrest with rfl | ⟨more, rfl⟩
    · rfl
    · rfl
  have hstart : (part ++ rest).dropWhile (· == slash) = part ++ rest := by
    cases part with
    | nil => exact absurd rfl hnil
    | cons b more =>
      refine dropWhile_cons_of_neg (p := (· == slash)) ?_
      rw [beq_iff_eq]
      rintro rfl
      exact hslash mem_cons_self
  have hne : part ++ rest ≠ [] := fun hc => hnil (append_eq_nil_iff.mp hc).1
  have hpos := length_pos_iff.mpr hnil
  rw [length_append] at hfuel
  obtain ⟨fuel, rfl⟩ : ∃ fuel', fuel = fuel' + 1 := ⟨fuel - 1, by omega⟩
  refine ⟨fuel, by omega, fun names => ?_⟩
  simp only [parseComponents, hstart, hpart, hafter, if_neg hne, scan, hnil, false_or,
    contains_iff_mem]
  by_cases hnul : 0 ∈ part
  · simp [hnul]
  by_cases hdot : part = [dot]
  · simp [hdot, hroom, dot, nameMax]
  by_cases hdotdot : part = [dot, dot]
  · have hless : components.length - 1 ≤ maxComponents := by omega
    simp [hdotdot, dot, nameMax, hless]
  by_cases hlength : part.length ≤ nameMax
  · by_cases hfull : components.length = maxComponents
    · simp [hnul, hdot, hdotdot, hlength, hfull]
    · have hmore : components.length + 1 ≤ maxComponents := by omega
      simp [hnul, hdot, hdotdot, hlength, hfull, hmore]
  · simp [hnul, hdot, hdotdot, hlength]

/-- The loop of `parse_path` is the scan, as long as all fits. -/
theorem parseComponents_iff : ∀ {fuel : Nat} {components : List Name}, bytes.length ≤ fuel →
    components.length ≤ maxComponents → ∀ names,
      (parseComponents fuel bytes components = .ok names ↔
        0 ∉ bytes ∧ Fits components (bytes.splitOn slash) ∧
          (bytes.splitOn slash).foldl scan components = names) := by
  induction bytes using cut_induction with
  | last part hslash =>
    intro fuel components hfuel hroom names
    rw [← append_nil part] at hfuel
    rcases parseComponents_part hslash (.inl rfl) hfuel hroom with ⟨fuel', -, hpart⟩
    have hend : ∀ components', parseComponents fuel' [] components' = .ok components' := by
      intro components'
      cases fuel' with
      | zero => rfl
      | succ fuel' => rfl
    have hstep := hpart names
    rw [append_nil, hend, Except.ok.injEq] at hstep
    rw [hstep, splitOn_eq_singleton hslash, fits_cons, fits_nil]
    simp [hroom, and_assoc]
  | more part rest hslash ih =>
    intro fuel components hfuel hroom names
    rcases parseComponents_part hslash (.inr ⟨rest, rfl⟩) hfuel hroom with ⟨fuel', hfuel', hpart⟩
    have hzero : (0 : UInt8) ≠ slash := by decide
    rw [length_cons] at hfuel'
    rw [hpart, parseComponents_slash, splitOn_append_cons_self_of_not_mem hslash, fits_cons,
      mem_append, mem_cons, foldl_cons]
    constructor
    · rintro ⟨hnul, hlength, hroom', hrest⟩
      rcases (ih (by omega) hroom' names).mp hrest with ⟨hnul', hfits, hnames⟩
      exact ⟨by simp [hnul, hnul', hzero], ⟨hroom, hlength, hfits⟩, hnames⟩
    · rintro ⟨hnul, ⟨-, hlength, hfits⟩, hnames⟩
      rw [not_or, not_or] at hnul
      have hroom' := hfits.2 0
      exact ⟨hnul.1, hlength, hroom', (ih (by omega) hroom' names).mpr ⟨hnul.2.2, hfits, hnames⟩⟩

variable {path : Path}

theorem parsePath_iff : parsePath path = .ok names ↔
    path.head? = some slash ∧ path.length ≤ maxPath ∧ 0 ∉ path ∧ Fits [] (path.splitOn slash) ∧
      (path.splitOn slash).foldl scan [] = names := by
  rw [parsePath]
  by_cases hbad : path.head? ≠ some slash ∨ path.length > maxPath
  · rw [if_pos hbad]
    refine ⟨nofun, fun h => ?_⟩
    rcases hbad with hhead | hlength
    · exact absurd h.1 hhead
    · exact absurd h.2.1 (Nat.not_le.mpr hlength)
  · rw [if_neg hbad]
    rw [not_or, not_not, Nat.not_lt] at hbad
    -- the first byte is stepped over; the loop would have skipped it
    have hskip : parseComponents path.length path.tail [] = parseComponents path.length path [] := by
      cases path with
      | nil => rfl
      | cons b rest =>
        obtain rfl : b = slash := Option.some.inj hbad.1
        exact (parseComponents_slash _ rest []).symm
    rw [hskip, parseComponents_iff (Nat.le_refl _) (Nat.zero_le _)]
    exact ⟨fun h => ⟨hbad.1, hbad.2, h⟩, fun h => h.2.2⟩

/-! ### Components -/

section Components

variable {components : List Name} (h : parsePath path = .ok components)

include h

/-- A component is a part of the path. -/
theorem component_mem : ∀ name ∈ components, name.bytes ∈ path.splitOn slash ∧
    name.bytes ≠ [] ∧ name.bytes ≠ [dot] ∧ name.bytes ≠ [dot, dot] := by
  rcases parsePath_iff.mp h with ⟨-, -, -, -, rfl⟩
  intro name hname
  exact (mem_foldl_scan hname).resolve_left not_mem_nil

/-- Components are plain names. -/
theorem parsePath_plain : ∀ name ∈ components, name.Plain := by
  intro name hname
  rcases component_mem h name hname with ⟨hpart, hne, hdot, hdotdot⟩
  rcases mem_splitOn hpart with ⟨hslash, hbytes⟩
  exact ⟨hne, hslash, fun hnul => (parsePath_iff.mp h).2.2.1 (hbytes 0 hnul), hdot, hdotdot⟩

theorem parsePath_length : components.length ≤ maxComponents := by
  rcases parsePath_iff.mp h with ⟨-, -, -, hfits, rfl⟩
  have hall := hfits.2 (path.splitOn slash).length
  rwa [take_length] at hall

/-- Parsing does not make a path longer. -/
theorem parsePath_cost : (spell components).length ≤ path.length := by
  rcases parsePath_iff.mp h with ⟨hhead, -, -, -, rfl⟩
  cases path with
  | nil => exact absurd hhead (by decide)
  | cons b rest =>
    obtain rfl : b = slash := Option.some.inj hhead
    have hcost := spell_foldl_scan [] (rest.splitOn slash)
    rw [sum_splitOn] at hcost
    rw [splitOn_slash, foldl_cons, length_cons]
    exact hcost.trans (Nat.le_of_eq (Nat.zero_add _))

/-- A path that is text has components that are text. -/
theorem parsePath_utf8 (htext : Utf8 path) : ∀ name ∈ components, Utf8 name.bytes :=
  fun name hname => splitOn_utf8 htext _ (component_mem h name hname).1

end Components

/-- Components that fit parse back. -/
theorem parsePath_pathOf (hplain : ∀ name ∈ names, name.Plain)
    (hcount : names.length ≤ maxComponents) (hlength : (pathOf names).length ≤ maxPath) :
    parsePath (pathOf names) = .ok names := by
  cases hnames : names with
  | nil => rfl
  | cons name rest =>
    rw [← hnames]
    have hne : names ≠ [] := by
      rw [hnames]
      exact cons_ne_nil _ _
    rw [pathOf_of_ne hne] at hlength ⊢
    refine parsePath_iff.mpr ⟨by rw [hnames]; rfl, hlength, ?_, ?_, ?_⟩
    · rw [spell, mem_flatMap]
      rintro ⟨name, hname, hnul⟩
      rcases mem_cons.mp hnul with hslash | hnul
      · exact absurd hslash (by decide)
      · exact (hplain name hname).no_nul hnul
    · rw [splitOn_spell hplain, fits_cons]
      refine ⟨Nat.zero_le _, Nat.zero_le _, forall_mem_map.mpr fun name _ => name.length_le,
        fun k => ?_⟩
      rw [← map_take, foldl_scan_plain fun name hname => hplain name (mem_of_mem_take hname)]
      exact Nat.le_trans (length_take_le' _ _) hcount
    · rw [splitOn_spell hplain, foldl_cons]
      exact foldl_scan_plain hplain []

/-- A path is accepted exactly if it begins with a slash, is at most 256 bytes, has no
    NUL and no part of more than 31 bytes, and a scan over its parts never holds more
    than sixteen; its components are those held at the end, and they are those of the
    path that is made of them. -/
theorem path_normalised (path : Path) :
    (∀ names, parsePath path = .ok names ↔ path.head? = some slash ∧ path.length ≤ 256 ∧
      0 ∉ path ∧ (∀ part ∈ path.splitOn slash, part.length ≤ 31) ∧
      (∀ k, (((path.splitOn slash).take k).foldl scan []).length ≤ 16) ∧
      names = (path.splitOn slash).foldl scan []) ∧
    ∀ names, parsePath path = .ok names → parsePath (pathOf names) = .ok names := by
  refine ⟨fun names => ?_, fun names h => ?_⟩
  · rw [parsePath_iff, Fits, and_assoc, eq_comm (a := names)]
    rfl
  · have hcost := parsePath_cost h
    have hmax := (parsePath_iff.mp h).2.1
    refine parsePath_pathOf (parsePath_plain h) (parsePath_length h) ?_
    by_cases hnil : names = []
    · rw [hnil]
      decide
    · rw [pathOf_of_ne hnil]
      omega

/-- Different components make different paths. -/
theorem spell_injective (names names' : List Name) (h : ∀ name ∈ names, name.Plain)
    (h' : ∀ name ∈ names', name.Plain) (hsame : spell names = spell names') : names = names' := by
  have hparts := splitOn_spell h
  rw [hsame, splitOn_spell h', List.cons.injEq] at hparts
  exact (Name.bytes_injective.list_map hparts.2).symm

theorem spell_utf8 (h : ∀ name ∈ names, Utf8 name.bytes) : Utf8 (spell names) := by
  induction names with
  | nil => exact utf8_nil
  | cons name rest ih =>
    rw [spell_cons]
    have hslash : Utf8 [slash] := ⟨['/'], by decide⟩
    exact utf8_append hslash (utf8_append (h name mem_cons_self)
      (ih (fun n hn => h n (mem_cons_of_mem _ hn))))

end Vfs

end Norx
