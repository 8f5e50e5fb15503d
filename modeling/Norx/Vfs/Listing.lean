import Norx.Vfs.Dentries
import Norx.Vfs.Names

/-!
# Reaching and Listing Every Node

Every node of the tree has one full name, the names on the way to it from the
root. Whether a caller can still say it is another matter: `parse_path` takes
at most sixteen components and 256 bytes, and neither `mkdir` nor `rename`
looks at what the full name of a node becomes. Moving a directory deeper moves
everything below it beyond the limits. `list` stops at the same depth, and one
byte earlier: it skips a path of exactly 256 bytes, which `parse_path` accepts.

`list` builds its paths in one buffer. It writes at the end of the part it was
given and beyond only, so the part in use is the model's list of bytes. It
hands them to the callback as a string. The paths callers give are strings and
components are cut out of them at slashes, so the bytes are always text and the
fallback for bytes that are not is never taken.

## Theorems

* `walkFrom_total`, `walkFrom_unique`: Every node has one full name.
* `mem_listDir`, `nodup_listDir`: What the traversal reports.
* `reachable_named`: Entries carry names that parse back.
* `resolvable_iff`: Which nodes a path leads to.
* `nodes_unreachable`: Runs that lose a node.
* `nodes_reachable_iff`: Which nodes can be reached and are listed.
-/

namespace Norx

namespace Vfs

open List

/-! ### The traversal -/

/-- `core::str::from_utf8`. -/
def fromUtf8 (bytes : List UInt8) : Option Path := if Utf8 bytes then some bytes else none

/-- The path of an entry below a path, if it fits the buffer. -/
def extendPath (path : Path) (name : Name) : Option Path :=
  let start :=
    if path.length > 1 then
      if path.length ≥ maxPath then none else some (path ++ [slash])
    else some path
  start.bind (fun start =>
    if start.length + name.bytes.length ≥ maxPath then none else some (start ++ name.bytes))

/-- The entries of a directory in use, in the order of its slots. -/
def usedChildren (fs : FileSystem) (inode : Nat) : List Child :=
  ((List.range maxChildren).map (fs.child inode)).filter (·.used)

/-- What is reported for one entry: its path and size, then what is below it. -/
def listChild (fs : FileSystem) (below : Nat → Path → List (Path × Nat)) (path : Path)
    (child : Child) : List (Path × Nat) :=
  match extendPath path child.name with
  | none => []
  | some path' =>
    ((fromUtf8 path').getD [slash], (fs.inode child.inode).size) ::
      if (fs.inode child.inode).kind = .directory then below child.inode path' else []

/-- `list_dir`, with the depth still allowed instead of the depth reached. -/
def listDir (fs : FileSystem) : Nat → Nat → Path → List (Path × Nat)
  | 0, _, _ => []
  | left + 1, inode, path => (usedChildren fs inode).flatMap (listChild fs (listDir fs left) path)

/-- `list`: nothing at all when no file system is mounted. -/
def list (s : Vfs) : List (Path × Nat) :=
  if s.mounted then listDir s.fs maxComponents 0 [slash] else []

/-! ### Full names -/

variable {fs : FileSystem} {d i : Nat} {name : Name}

theorem findChild_of_entry (h : (tree fs).WellFormed 0) {k : Nat}
    (he : (tree fs).entry d k = some (i, name)) : findChild fs d name = some i := by
  cases hfind : findChild fs d name with
  | none => exact absurd he (findChild_none hfind k i)
  | some j =>
    rcases findChild_some hfind with ⟨k', he'⟩
    obtain rfl := h.named d k k' i j name he he'
    rw [he] at he'
    rw [(Prod.mk.inj (Option.some.inj he')).1]

variable {names : List Name}

/-- The last step of a walk. -/
theorem walkFrom_concat :
    walkFrom fs (names ++ [name]) d = some i ↔ ∃ parent, walkFrom fs names d = some parent ∧
      (fs.inode parent).kind = .directory ∧ findChild fs parent name = some i := by
  rw [walkFrom_append, Option.bind_eq_some_iff]
  refine exists_congr (fun parent => and_congr_right (fun _ => ?_))
  rw [walkFrom]
  by_cases hkind : (fs.inode parent).kind = .directory
  · rw [if_pos hkind, Option.bind_eq_some_iff]
    simp [walkFrom, hkind]
  · rw [if_neg hkind]
    simp [hkind]

/-- Every node has a full name. -/
theorem walkFrom_total (h : (tree fs).WellFormed 0) (hi : (tree fs).node i = true) :
    ∃ names, walkFrom fs names 0 = some i := by
  have hclimb := h.rooted i hi
  clear hi
  induction hclimb with
  | root _ => exact ⟨[], rfl⟩
  | @step j hj _ ih =>
    by_cases hroot : j = 0
    · rw [hroot]
      exact ⟨[], rfl⟩
    · rcases ih with ⟨names, hwalk⟩
      rcases h.linked j hj hroot with ⟨k, name, he⟩
      exact ⟨names ++ [name], walkFrom_concat.mpr ⟨_, hwalk, kind_of_dir (h.owner _ _ _ _ he).2,
        findChild_of_entry h he⟩⟩

/-- And no other: its entry is the only one, and so is its parent's. -/
theorem walkFrom_unique (h : (tree fs).WellFormed 0) (names : List Name) :
    ∀ (names' : List Name) (i : Nat), walkFrom fs names 0 = some i →
      walkFrom fs names' 0 = some i → names = names' := by
  induction names using List.reverseRecOn with
  | nil =>
    intro names' i hwalk hwalk'
    obtain rfl : 0 = i := Option.some.inj hwalk
    rcases eq_nil_or_concat' names' with rfl | ⟨init, last, rfl⟩
    · rfl
    · rcases walkFrom_concat.mp hwalk' with ⟨parent, -, -, hfind⟩
      rcases findChild_some hfind with ⟨k, he⟩
      exact absurd rfl (h.target _ _ _ _ he).2.1
  | append_singleton init last ih =>
    intro names' i hwalk hwalk'
    rcases walkFrom_concat.mp hwalk with ⟨parent, hinit, -, hfind⟩
    rcases findChild_some hfind with ⟨k, he⟩
    rcases eq_nil_or_concat' names' with rfl | ⟨init', last', rfl⟩
    · obtain rfl : 0 = i := Option.some.inj hwalk'
      exact absurd rfl (h.target _ _ _ _ he).2.1
    · rcases walkFrom_concat.mp hwalk' with ⟨parent', hinit', -, hfind'⟩
      rcases findChild_some hfind' with ⟨k', he'⟩
      rcases h.unique he he' with ⟨rfl, rfl⟩
      rw [he] at he'
      rw [ih init' parent' hinit hinit', (Prod.mk.inj (Option.some.inj he')).2]

/-! ### What is reported -/

/-- A name a listing can spell: it parses back and is text. -/
def Name.Spellable (name : Name) : Prop := name.Plain ∧ Utf8 name.bytes

variable {child : Child}

theorem mem_usedChildren :
    child ∈ usedChildren fs d ↔ child.used = true ∧ ∃ k, k < maxChildren ∧ fs.child d k = child := by
  rw [usedChildren, mem_filter, mem_map, and_comm]
  simp

theorem findChild_of_usedChildren (h : (tree fs).WellFormed 0) (hchild : child ∈ usedChildren fs d) :
    findChild fs d child.name = some child.inode := by
  rcases mem_usedChildren.mp hchild with ⟨hused, k, -, rfl⟩
  exact findChild_of_entry h (tree_entry hused)

theorem usedChildren_of_findChild (h : findChild fs d name = some i) :
    ∃ child ∈ usedChildren fs d, child.name = name ∧ child.inode = i := by
  rcases findChild_some h with ⟨k, he⟩
  rcases used_of_entry he with ⟨hused, hinode, hname⟩
  exact ⟨fs.child d k, mem_usedChildren.mpr ⟨hused, k, (lt_of_child_used hused).2, rfl⟩, hname,
    hinode⟩

theorem two_le_spell (hne : names ≠ []) (h : ∀ name ∈ names, name.Plain) :
    2 ≤ (spell names).length := by
  cases names with
  | nil => exact absurd rfl hne
  | cons name rest =>
    have hsome := length_pos_iff.mpr (h name mem_cons_self).nonempty
    rw [spell_cons, length_cons, length_append]
    omega

/-- The path of an entry is the full name spelled out, if it fits. -/
theorem extendPath_pathOf (h : ∀ name ∈ names, name.Plain) (name : Name) :
    extendPath (pathOf names) name
      = if (spell (names ++ [name])).length < maxPath then some (spell (names ++ [name]))
        else none := by
  have hone : spell [name] = slash :: name.bytes := by
    exact congrArg _ (append_nil _)
  by_cases hnil : names = []
  · subst hnil
    have hshort : ¬ (pathOf []).length > 1 := by decide
    have hslash : pathOf [] = [slash] := rfl
    rw [extendPath, if_neg hshort, Option.bind_some, nil_append, hone, hslash,
      length_singleton, length_cons]
    by_cases hfits : name.bytes.length + 1 < maxPath
    · rw [if_pos hfits, if_neg (by omega)]
      rfl
    · rw [if_neg hfits, if_pos (by omega)]
  · have hlong := two_le_spell hnil h
    rw [pathOf_of_ne hnil, extendPath, if_pos (by omega), spell_append, hone]
    by_cases hfull : (spell names).length ≥ maxPath
    · rw [if_pos hfull, if_neg (by rw [length_append]; omega)]
      rfl
    · rw [if_neg hfull, Option.bind_some]
      simp
      by_cases hfits : (spell names).length + (name.bytes.length + 1) < maxPath
      · rw [if_pos hfits, if_neg (by omega)]
      · rw [if_neg hfits, if_pos (by omega)]

/-- The paths reported are text, so they are reported as they are. -/
theorem fromUtf8_spell (h : ∀ name ∈ names, name.Spellable) :
    (fromUtf8 (spell names)).getD [slash] = spell names := by
  rw [fromUtf8, if_pos (spell_utf8 (fun name hname => (h name hname).2)), Option.getD_some]

/-- What a traversal from a directory reports: each node below it, under its
    full name, if that is not too deep and not too long. -/
def Reported (fs : FileSystem) (left d : Nat) (names : List Name) (visit : Path × Nat) : Prop :=
  ∃ below i, below ≠ [] ∧ walkFrom fs below d = some i ∧ below.length ≤ left ∧
    (spell (names ++ below)).length < maxPath ∧
    visit = (spell (names ++ below), (fs.inode i).size)

section Traversal

variable {fs : FileSystem} (hnames : NamesAre Name.Spellable fs)

include hnames

theorem spellable_child (hchild : child ∈ usedChildren fs d) : child.name.Spellable := by
  rcases mem_usedChildren.mp hchild with ⟨hused, k, -, rfl⟩
  exact hnames d k hused

theorem walkFrom_spellable : ∀ (names : List Name) (d i : Nat), walkFrom fs names d = some i →
    ∀ name ∈ names, name.Spellable := by
  intro names
  induction names with
  | nil =>
    intro d i _ name hname
    exact absurd hname not_mem_nil
  | cons first rest ih =>
    intro d i hwalk name hname
    rw [walkFrom] at hwalk
    by_cases hkind : (fs.inode d).kind = .directory
    · rw [if_pos hkind, Option.bind_eq_some_iff] at hwalk
      rcases hwalk with ⟨j, hfind, hrest⟩
      rcases mem_cons.mp hname with rfl | hlater
      · rcases usedChildren_of_findChild hfind with ⟨child, hchild, rfl, -⟩
        exact spellable_child hnames hchild
      · exact ih j i hrest name hlater
    · rw [if_neg hkind] at hwalk
      cases hwalk

/-- What is reported for one entry, once it is known what is reported below
    it. -/
theorem mem_listChild {left : Nat} (hchild : child ∈ usedChildren fs d)
    (hspell : ∀ name ∈ names, name.Spellable)
    (hbelow : ∀ names', (fs.inode child.inode).kind = .directory → (∀ name ∈ names', name.Spellable)
      → ∀ visit, visit ∈ listDir fs left child.inode (pathOf names') ↔ Reported fs left child.inode
      names' visit) (visit : Path × Nat) :
    visit ∈ listChild fs (listDir fs left) (pathOf names) child ↔
      ∃ rest i, walkFrom fs rest child.inode = some i ∧ rest.length ≤ left ∧
        (spell (names ++ child.name :: rest)).length < maxPath ∧
        visit = (spell (names ++ child.name :: rest), (fs.inode i).size) := by
  have hspell' := forall_mem_append.mpr
    ⟨hspell, forall_mem_singleton.mpr (spellable_child hnames hchild)⟩
  have hsplit : ∀ rest, names ++ child.name :: rest = (names ++ [child.name]) ++ rest := by
    intro rest
    rw [append_assoc, singleton_append]
  have hne : names ++ [child.name] ≠ [] :=
    append_ne_nil_of_right_ne_nil _ (cons_ne_nil _ _)
  rw [listChild, extendPath_pathOf (fun name hname => (hspell name hname).1)]
  by_cases hfits : (spell (names ++ [child.name])).length < maxPath
  · rw [if_pos hfits]
    simp only [mem_cons, fromUtf8_spell hspell']
    constructor
    · rintro (rfl | hvisit)
      · exact ⟨[], child.inode, rfl, Nat.zero_le _, hfits, rfl⟩
      · by_cases hkind : (fs.inode child.inode).kind = .directory
        · rw [if_pos hkind, ← pathOf_of_ne hne, hbelow _ hkind hspell'] at hvisit
          rcases hvisit with ⟨rest, i, -, hwalk, hlen, hshort, rfl⟩
          rw [← hsplit] at hshort ⊢
          exact ⟨rest, i, hwalk, hlen, hshort, rfl⟩
        · rw [if_neg hkind] at hvisit
          exact absurd hvisit not_mem_nil
    · rintro ⟨rest, i, hwalk, hlen, hshort, rfl⟩
      cases rest with
      | nil =>
        obtain rfl : child.inode = i := Option.some.inj hwalk
        exact .inl rfl
      | cons next more =>
        have hkind : (fs.inode child.inode).kind = .directory := by
          by_contra hc
          rw [walkFrom, if_neg hc] at hwalk
          cases hwalk
        rw [hsplit] at hshort ⊢
        rw [if_pos hkind, ← pathOf_of_ne hne, hbelow _ hkind hspell']
        exact .inr ⟨next :: more, i, cons_ne_nil _ _, hwalk, hlen, hshort, rfl⟩
  · rw [if_neg hfits]
    constructor
    · intro hvisit
      exact absurd hvisit not_mem_nil
    · -- A path below it would be longer still.
      rintro ⟨rest, i, -, -, hshort, -⟩
      rw [hsplit, spell_append, length_append] at hshort
      exact absurd hshort (by omega)

variable (hfs : (tree fs).WellFormed 0)

include hfs

theorem mem_listDir : ∀ (left d : Nat) (names : List Name),
    (fs.inode d).kind = .directory → (∀ name ∈ names, name.Spellable) → ∀ visit,
      visit ∈ listDir fs left d (pathOf names) ↔ Reported fs left d names visit := by
  intro left
  induction left with
  | zero =>
    intro d names _ _ visit
    constructor
    · intro hvisit
      exact absurd hvisit not_mem_nil
    · rintro ⟨below, i, hne, -, hlen, -⟩
      exact absurd (length_eq_zero_iff.mp (Nat.le_zero.mp hlen)) hne
  | succ left ih =>
    intro d names hdir hspell visit
    rw [listDir, mem_flatMap]
    constructor
    · rintro ⟨child, hchild, hvisit⟩
      rw [mem_listChild hnames hchild hspell (fun names' => ih _ names')] at hvisit
      rcases hvisit with ⟨rest, i, hwalk, hlen, hshort, rfl⟩
      refine ⟨child.name :: rest, i, cons_ne_nil _ _, ?_, Nat.succ_le_succ hlen, hshort, rfl⟩
      rw [walkFrom, if_pos hdir, findChild_of_usedChildren hfs hchild, Option.bind_some, hwalk]
    · rintro ⟨below, i, hne, hwalk, hlen, hshort, rfl⟩
      cases below with
      | nil => exact absurd rfl hne
      | cons name rest =>
        rw [walkFrom, if_pos hdir, Option.bind_eq_some_iff] at hwalk
        rcases hwalk with ⟨j, hfind, hrest⟩
        rcases usedChildren_of_findChild hfind with ⟨child, hchild, rfl, rfl⟩
        refine ⟨child, hchild, ?_⟩
        rw [mem_listChild hnames hchild hspell (fun names' => ih _ names')]
        exact ⟨rest, i, hrest, Nat.le_of_succ_le_succ hlen, hshort, rfl⟩

omit hnames in
/-- The entries of a directory have different names. -/
theorem usedChildren_pairwise (d : Nat) :
    (usedChildren fs d).Pairwise (fun child child' => child.name ≠ child'.name) := by
  rw [usedChildren, pairwise_filter, pairwise_map]
  refine List.Pairwise.imp (fun {k k'} hlt hused hused' hname => ?_) pairwise_lt_range
  have he := tree_entry hused
  rw [hname] at he
  exact absurd (hfs.named d k k' _ _ _ he (tree_entry hused')) (Nat.ne_of_lt hlt)

/-- No path is reported twice. -/
theorem nodup_listDir : ∀ (left d : Nat) (names : List Name),
    (∀ name ∈ names, name.Spellable) →
      ((listDir fs left d (pathOf names)).map Prod.fst).Nodup := by
  intro left
  induction left with
  | zero =>
    intro d names _
    exact nodup_nil
  | succ left ih =>
    intro d names hspell
    -- What is reported for an entry begins with the entry's own name.
    have hform : ∀ child ∈ usedChildren fs d, ∀ path,
        path ∈ (listChild fs (listDir fs left) (pathOf names) child).map Prod.fst →
        ∃ rest, (∀ name ∈ rest, name.Plain) ∧ path = spell (names ++ child.name :: rest) := by
      intro child hchild path hpath
      rcases mem_map.mp hpath with ⟨visit, hvisit, rfl⟩
      rw [mem_listChild hnames hchild hspell
        (fun names' hkind => mem_listDir hnames hfs left _ names' hkind)] at hvisit
      rcases hvisit with ⟨rest, i, hwalk, -, -, rfl⟩
      exact ⟨rest, fun name hname => (walkFrom_spellable hnames rest _ _ hwalk name hname).1, rfl⟩
    rw [listDir, map_flatMap, nodup_flatMap]
    refine ⟨fun child hchild => ?_, ?_⟩
    · have hspell' := forall_mem_append.mpr
        ⟨hspell, forall_mem_singleton.mpr (spellable_child hnames hchild)⟩
      rw [listChild, extendPath_pathOf (fun name hname => (hspell name hname).1)]
      by_cases hfits : (spell (names ++ [child.name])).length < maxPath
      · rw [if_pos hfits]
        simp only [map_cons, fromUtf8_spell hspell', nodup_cons]
        by_cases hkind : (fs.inode child.inode).kind = .directory
        · rw [if_pos hkind, ← pathOf_of_ne (append_ne_nil_of_right_ne_nil names
            (cons_ne_nil child.name []))]
          refine ⟨fun hagain => ?_, ih _ _ hspell'⟩
          -- A path reported below it is longer than its own.
          rcases mem_map.mp hagain with ⟨visit, hvisit, hpath⟩
          rcases (mem_listDir hnames hfs left _ _ hkind hspell' visit).mp hvisit with
            ⟨below, i, hne, -, -, -, rfl⟩
          have hlen := congrArg List.length hpath
          have hsome := length_le_spell below
          have hpos := length_pos_iff.mpr hne
          rw [pathOf_of_ne (append_ne_nil_of_right_ne_nil names
            (cons_ne_nil child.name [])), spell_append (names ++ [child.name]),
            length_append] at hlen
          omega
        · rw [if_neg hkind]
          exact ⟨not_mem_nil, nodup_nil⟩
      · rw [if_neg hfits]
        exact nodup_nil
    · refine List.Pairwise.imp_of_mem ?_ (usedChildren_pairwise hfs d)
      intro child child' hchild hchild' hne path hpath hpath'
      rcases hform child hchild path hpath with ⟨rest, hrest, rfl⟩
      rcases hform child' hchild' _ hpath' with ⟨rest', hrest', hsame⟩
      rw [spell_append, spell_append, append_cancel_left_eq] at hsame
      have hplain : ∀ (c : Child) (r : List Name), c ∈ usedChildren fs d →
          (∀ name ∈ r, name.Plain) → ∀ name ∈ c.name :: r, name.Plain :=
        fun c r hc hr => forall_mem_cons.mpr ⟨(spellable_child hnames hc).1, hr⟩
      have hlists := spell_injective _ _ (hplain child rest hchild hrest)
        (hplain child' rest' hchild' hrest') hsame
      exact hne (List.cons.inj hlists).1

end Traversal

/-! ### Runs -/

/-- The paths a request is made with. -/
def Call.paths : Call → List Path
  | .mountInNamespace _ _ target _ _ => [target]
  | .lookupInNamespace _ path => [path]
  | .openFile path _ => [path]
  | .chmod path _ => [path]
  | .mkdir path => [path]
  | .unlink path => [path]
  | .removeDir path => [path]
  | .rename oldPath newPath => [oldPath, newPath]
  | .readPath path => [path]
  | .writePath path _ => [path]
  | _ => []

/-- The paths of the request are text. Every one of them is a `&str` in the
    source. -/
def Call.IsStr (call : Call) : Prop := ∀ path ∈ call.paths, Utf8 path

instance (call : Call) : Decidable call.IsStr :=
  inferInstanceAs (Decidable (∀ path ∈ call.paths, Utf8 path))

variable {path : Path}

theorem component_spellable (h : Component path name) (htext : Utf8 path) : name.Spellable := by
  rcases h with ⟨components, hparse, hmem⟩
  exact ⟨parsePath_plain hparse name hmem, parsePath_utf8 hparse htext name hmem⟩

/-- A request made with text writes names that can be spelled. -/
theorem scope_spellable {call : Call} (h : call.IsStr) (s : Vfs) (name : Name)
    (hwrites : (call.scope s).writes name) : name.Spellable := by
  cases call with
  | mkdir path | openFile path | readPath path | writePath path =>
    exact component_spellable hwrites (h path mem_cons_self)
  | rename oldPath newPath =>
    exact component_spellable hwrites (h newPath (mem_cons_of_mem _ mem_cons_self))
  | _ => exact hwrites.elim

theorem freshRamfs_named : NamesAre Name.Spellable freshRamfs.fs := by
  intro d k hused
  have hnone := freshRamfs_entry d k
  rw [tree_entry hused] at hnone
  exact nomatch hnone

/-- Entries carry names that parse back. -/
theorem reachable_named {calls : List Call} (h : ∀ call ∈ calls, call.IsStr) :
    NamesAre Name.Spellable (run World.step World.start calls).vfs.fs := by
  refine run_invariant World.step (fun _ call => call.IsStr)
    (fun w => NamesAre Name.Spellable w.vfs.fs) (fun w call hw hstr => ?_) calls World.start
    freshRamfs_named ((obeys_iff_mem _ _ _ _).mpr h)
  rcases step_edits w call with hedits | ⟨-, -, hfresh⟩
  · exact edits_namesAre (fun name => scope_spellable hstr w.vfs name) hedits hw
  · rw [hfresh]
    exact freshRamfs_named

/-! ### Which nodes can be reached -/

/-- The path leads to the node. -/
def leadsTo (s : Vfs) (path : Path) (i : Nat) : Bool :=
  match resolveMount s path rootNamespace with
  | .ok here => here.2 == i
  | .error _ => false

variable {s : Vfs}

theorem leadsTo_iff :
    leadsTo s path i = true ↔ ∃ mount, resolveMount s path rootNamespace = .ok (mount, i) := by
  rw [leadsTo]
  cases h : resolveMount s path rootNamespace with
  | error e => simp
  | ok here =>
    rw [beq_iff_eq]
    constructor
    · rintro rfl
      exact ⟨here.1, rfl⟩
    · rintro ⟨mount, hsame⟩
      rw [Except.ok.inj hsame]

section Paths

variable {s : Vfs} (ht : TablesInv s) {names : List Name} {i : Nat}
  (hwalk : walkFrom s.fs names 0 = some i)

include ht hwalk

/-- A path that leads to a node parses to its full name. -/
theorem parsePath_of_leadsTo (h : leadsTo s path i = true) : parsePath path = .ok names := by
  rcases leadsTo_iff.mp h with ⟨mount, hresolve⟩
  rcases resolveMount_ok hresolve with ⟨components, start, hparse, -, hfrom⟩
  have hwalk' := resolveFrom_walk ht.1 components _ _ hfrom
  rw [hparse, walkFrom_unique ht.2 names components i hwalk hwalk']

/-- A path that parses to a node's full name leads to it. -/
theorem leadsTo_of_parsePath (h : parsePath path = .ok names) : leadsTo s path i = true := by
  rcases resolveFrom_total ht.1 rootNamespace names (rootMount, 0) i hwalk with ⟨mount, hfrom⟩
  refine leadsTo_iff.mpr ⟨mount, ?_⟩
  have hroot : namespaceRoot s rootNamespace = .ok rootMount := by
    rw [namespaceRoot, ht.1.root_ns]
    rfl
  simp only [resolveMount, h, hroot, bind, Except.bind, hfrom]

/-- A node can be reached exactly if its full name is not too deep and not too
    long. -/
theorem resolvable_iff (hplain : ∀ name ∈ names, name.Plain) :
    (∃ path, leadsTo s path i = true) ↔
      names.length ≤ maxComponents ∧ (pathOf names).length ≤ maxPath := by
  constructor
  · rintro ⟨path, hleads⟩
    have hparse := parsePath_of_leadsTo ht hwalk hleads
    refine ⟨parsePath_length hparse, ?_⟩
    have hcost := parsePath_cost hparse
    have hmax := (parsePath_iff.mp hparse).2.1
    by_cases hnil : names = []
    · rw [hnil]
      decide
    · rw [pathOf_of_ne hnil]
      omega
  · rintro ⟨hcount, hlength⟩
    exact ⟨pathOf names, leadsTo_of_parsePath ht hwalk (parsePath_pathOf hplain hcount hlength)⟩

end Paths

/-- The path leads to the node, and among the paths `list` reports it is the
    only one that does, reported once, with the node's size. -/
def ListedOnce (s : Vfs) (path : Path) (i : Nat) : Prop :=
  leadsTo s path i = true ∧
    (list s).filter (fun visit => leadsTo s visit.1 i) = [(path, (s.fs.inode i).size)]

section Spelled

variable (ht : TablesInv s) (hnames : NamesAre Name.Spellable s.fs)

include ht hnames

/-- What `list` reports. -/
theorem mem_list (visit : Path × Nat) :
    visit ∈ list s ↔ s.mounted = true ∧ Reported s.fs maxComponents 0 [] visit := by
  rw [list]
  cases hmounted : s.mounted with
  | false =>
    simp
  | true =>
    simp
    exact mem_listDir hnames ht.2 maxComponents 0 [] (kind_of_dir ht.2.root_dir)
      (fun name hname => absurd hname not_mem_nil) visit

theorem nodup_list : (list s).Nodup := by
  rw [list]
  cases s.mounted with
  | false => exact nodup_nil
  | true =>
    exact List.Nodup.of_map _ (nodup_listDir hnames ht.2 maxComponents 0 []
      (fun name hname => absurd hname not_mem_nil))

/-- `list` reports a node exactly if its full name is not too deep and shorter
    than the buffer. -/
theorem listedOnce_iff (hwalk : walkFrom s.fs names 0 = some i) (hne : names ≠ []) (path : Path) :
    ListedOnce s path i ↔ s.mounted = true ∧ names.length ≤ maxComponents ∧
      (pathOf names).length < maxPath ∧ path = pathOf names := by
  have hplain : ∀ name ∈ names, name.Plain := fun name hname =>
    (walkFrom_spellable hnames names _ _ hwalk name hname).1
  have hpath : pathOf names = spell names := pathOf_of_ne hne
  -- A report whose path leads to the node is of the node.
  have hreport : ∀ visit ∈ list s, leadsTo s visit.1 i = true →
      visit = (spell names, (s.fs.inode i).size) ∧ s.mounted = true ∧
        names.length ≤ maxComponents ∧ (spell names).length < maxPath := by
    intro visit hvisit hleads
    rcases (mem_list ht hnames visit).mp hvisit with
      ⟨hmounted, below, j, hbelow, hwalk', hcount, hshort, rfl⟩
    rw [nil_append] at hshort hleads ⊢
    have hplain' : ∀ name ∈ below, name.Plain := fun name hname =>
      (walkFrom_spellable hnames below _ _ hwalk' name hname).1
    have hback := parsePath_pathOf hplain' hcount (by rw [pathOf_of_ne hbelow]; omega)
    rw [pathOf_of_ne hbelow, parsePath_of_leadsTo ht hwalk hleads] at hback
    obtain rfl : names = below := Except.ok.inj hback
    obtain rfl : i = j := Option.some.inj (hwalk.symm.trans hwalk')
    exact ⟨rfl, hmounted, hcount, hshort⟩
  rw [hpath]
  constructor
  · rintro ⟨hleads, hfilter⟩
    have hmem : (path, (s.fs.inode i).size)
        ∈ (list s).filter (fun visit => leadsTo s visit.1 i) := by
      rw [hfilter]
      exact mem_singleton_self _
    rcases hreport _ (mem_filter.mp hmem).1 hleads with ⟨hsame, hmounted, hcount, hshort⟩
    exact ⟨hmounted, hcount, hshort, (Prod.mk.inj hsame).1⟩
  · rintro ⟨hmounted, hcount, hshort, rfl⟩
    have hleads : leadsTo s (spell names) i = true := by
      refine leadsTo_of_parsePath ht hwalk ?_
      rw [← hpath]
      exact parsePath_pathOf hplain hcount (by rw [hpath]; omega)
    have hmem : (spell names, (s.fs.inode i).size) ∈ list s := by
      refine (mem_list ht hnames _).mpr ⟨hmounted, names, i, hne, hwalk, hcount, ?_, ?_⟩
      · exact hshort
      · rfl
    refine ⟨hleads, ?_⟩
    have hsame : (list s).filter (fun visit => leadsTo s visit.1 i)
        = (list s).filter (fun visit => visit == (spell names, (s.fs.inode i).size)) := by
      refine filter_congr (fun visit hvisit => ?_)
      rw [Bool.eq_iff_iff, beq_iff_eq]
      constructor
      · intro hto
        exact (hreport visit hvisit hto).1
      · rintro rfl
        exact hleads
    rw [hsame, filter_beq, count_eq_one_of_mem (nodup_list ht hnames) hmem,
      replicate_one]

end Spelled

/-- A name of 31 bytes, the longest there is. -/
def longName : Name := { bytes := List.replicate 31 97, length_le := by decide }

/-- Directories in one another, each with the longest name there is. -/
def nested (n : Nat) : List Call :=
  (List.range n).map (fun k => Call.mkdir (spell (List.replicate (k + 1) longName)))

theorem longName_spell (n : Nat) : Utf8 (spell (List.replicate n longName)) := by
  have hname : Utf8 longName.bytes := ⟨List.replicate 31 'a', by decide⟩
  refine spell_utf8 (fun name hmem => ?_)
  rw [eq_of_mem_replicate hmem]
  exact hname

theorem nested_isStr (n : Nat) : ∀ call ∈ nested n, call.IsStr := by
  intro call hcall path hpath
  rcases mem_map.mp hcall with ⟨k, -, rfl⟩
  rw [mem_singleton.mp hpath]
  exact longName_spell (k + 1)

/-- Eight directories in one another under the longest names there are: the
    innermost has a path of exactly 256 bytes, which leads to it and is not
    listed. Once `rename` has moved the outermost into another directory, no
    path leads to it at all. -/
theorem nodes_unreachable :
    let s := (run World.step World.start (nested 8)).vfs
    let s' := (run World.step World.start (nested 8 ++ [Call.mkdir [47, 120],
      Call.rename (spell [longName]) ([47, 120] ++ spell [longName])])).vfs
    s.mounted = true ∧ (s.fs.inode 8).used = true ∧
    leadsTo s (spell (List.replicate 8 longName)) 8 = true ∧ (∀ path, ¬ ListedOnce s path 8) ∧
    s'.mounted = true ∧ (s'.fs.inode 8).used = true ∧ ∀ path, leadsTo s' path 8 = false := by
  intro s s'
  have hshort : Utf8 [47, 120] := ⟨['/', 'x'], by decide⟩
  have hstr : ∀ call ∈ nested 8 ++ [Call.mkdir [47, 120],
      Call.rename (spell [longName]) ([47, 120] ++ spell [longName])], call.IsStr := by
    intro call hcall path hpath
    simp only [mem_append, mem_cons, not_mem_nil, or_false] at hcall
    rcases hcall with hmkdir | rfl | rfl
    · exact nested_isStr 8 call hmkdir path hpath
    · rw [mem_singleton.mp hpath]
      exact hshort
    · simp only [Call.paths, mem_cons, not_mem_nil, or_false] at hpath
      rcases hpath with rfl | rfl
      · exact longName_spell 1
      · exact utf8_append hshort (longName_spell 1)
  -- The full names of inode 8, before and after the rename.
  have hwalk : walkFrom s.fs (List.replicate 8 longName) 0 = some 8 := by decide +kernel
  have hwalk' : walkFrom s'.fs ({ bytes := [120], length_le := by decide } ::
      List.replicate 8 longName) 0 = some 8 := by decide +kernel
  have ht : TablesInv s := reachable_tablesInv _
  have ht' : TablesInv s' := reachable_tablesInv _
  have hnames : NamesAre Name.Spellable s.fs :=
    reachable_named (nested_isStr 8)
  have hnames' : NamesAre Name.Spellable s'.fs := reachable_named hstr
  refine ⟨by decide +kernel, by decide +kernel, by decide +kernel, fun path hlisted => ?_,
    by decide +kernel, by decide +kernel, fun path => ?_⟩
  · have hfits := ((listedOnce_iff ht hnames hwalk (cons_ne_nil _ _) path).mp hlisted).2.2.1
    exact absurd hfits (by decide +kernel)
  · by_contra hleads
    rw [Bool.not_eq_false] at hleads
    have hplain := fun name hname => (walkFrom_spellable hnames' _ _ _ hwalk' name hname).1
    have hfits := ((resolvable_iff ht' hwalk' hplain).mp ⟨path, hleads⟩).2
    exact absurd hfits (by decide +kernel)

/-- Every node in use but the root has one full name, the names on the way to
    it. It can be reached by a path exactly if that is at most sixteen
    components and 256 bytes. `list` reports it, once and under that name,
    exactly if it is mounted and the name is one byte shorter. -/
theorem nodes_reachable_iff (calls : List Call) (hstr : ∀ call ∈ calls, call.IsStr) (i : Nat)
    (hused : ((run World.step World.start calls).vfs.fs.inode i).used = true) (hne : i ≠ 0) :
    let s := (run World.step World.start calls).vfs
    ∃ names, (∀ names', walkFrom s.fs names' 0 = some i ↔ names' = names) ∧
      ((∃ path mount, resolveMount s path rootNamespace = .ok (mount, i)) ↔
        names.length ≤ maxComponents ∧ (pathOf names).length ≤ maxPath) ∧
      (∀ path, ListedOnce s path i ↔ s.mounted = true ∧ names.length ≤ maxComponents ∧
        (pathOf names).length < maxPath ∧ path = pathOf names) := by
  intro s
  have ht : TablesInv s := reachable_tablesInv calls
  have hnames : NamesAre Name.Spellable s.fs := reachable_named hstr
  rcases walkFrom_total ht.2 hused with ⟨names, hwalk⟩
  have hsome : names ≠ [] := by
    rintro rfl
    exact hne (Option.some.inj hwalk).symm
  refine ⟨names, fun names' => ⟨fun hwalk' => walkFrom_unique ht.2 _ _ _ hwalk' hwalk, ?_⟩, ?_,
    listedOnce_iff ht hnames hwalk hsome⟩
  · rintro rfl
    exact hwalk
  · simp only [← leadsTo_iff]
    exact resolvable_iff ht hwalk (fun name hname =>
      (walkFrom_spellable hnames names _ _ hwalk name hname).1)

/-- A file in a directory. -/
theorem nodes_reachable_iff_nested :
    let calls := [Call.mkdir [47, 97], Call.writePath [47, 97, 47, 98] [1, 2, 3]]
    let s := (run World.step World.start calls).vfs
    ∃ path, ListedOnce s path 2 := by
  intro calls s
  rcases nodes_reachable_iff calls (by decide +kernel) 2 (by decide +kernel) (by decide) with
    ⟨names, hname, -, hlisted⟩
  obtain rfl := (hname [{ bytes := [97], length_le := by decide },
    { bytes := [98], length_le := by decide }]).mp (by decide +kernel)
  exact ⟨_, (hlisted _).mpr ⟨by decide +kernel, by decide, by decide, rfl⟩⟩

end Vfs

end Norx
