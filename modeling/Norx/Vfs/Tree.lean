import Norx.Lib.Tree
import Norx.Vfs.Mounts

/-!
# The Directory Tree

The inode table as a directory tree. `tree` reads the tree off the table, and
each change the operations make to the table is one of the four updates of a
tree, or no update of it at all. What the code checked before the change is
the condition that update asks for: `create_node_at` that the name is free, the
removals that the inode has no entry, and `rename` that the target directory is
not below what it moves, which `is_descendant` decides by climbing.

## Theorems

* `tree_created`, `tree_removed`, `tree_renamed`, `tree_moved`: The changes as
  updates of the tree.
* `change_treeInv`: Every change keeps the tree well formed.
* `reachable_tree_wellFormed`: The tree in every reachable state.
-/

namespace Norx

namespace Vfs

open Slots Function

open Norx.Tree

/-- What an entry of a directory says: nothing if it is free. -/
def Child.entry (child : Child) : Option (Nat × Name) :=
  if child.used then some (child.inode, child.name) else none

/-- The tree an inode table stores. -/
def tree (fs : FileSystem) : Tree Nat Nat Name where
  node := fun i => (fs.inode i).used
  dir := fun i => (fs.inode i).kind == .directory
  parent := fun i => (fs.inode i).parent
  entry := fun d k => (fs.child d k).entry

/-- The inode table stores a well-formed tree. -/
def TreeInv (s : Vfs) : Prop := (tree s.fs).WellFormed 0

variable {child : Child}

theorem entry_used (h : child.used = true) :
    child.entry = some (child.inode, child.name) := if_pos h

theorem entry_free (h : child.used = false) : child.entry = none := by
  rw [Child.entry, h]
  rfl

variable {i : Nat}

theorem used_of_entry {x : Name} (h : child.entry = some (i, x)) :
    child.used = true ∧ child.inode = i ∧ child.name = x := by
  by_cases hused : child.used = true
  · rw [entry_used hused] at h
    exact ⟨hused, Prod.mk.inj (Option.some.inj h)⟩
  · rw [entry_free (Bool.not_eq_true _ ▸ hused)] at h
    exact nomatch h

variable {fs : FileSystem} {d k : Nat}

/-- An entry in use, as the tree sees it. -/
theorem tree_entry (h : (fs.child d k).used = true) :
    (tree fs).entry d k = some ((fs.child d k).inode, (fs.child d k).name) := entry_used h

theorem entry_replicate (k : Nat) :
    ((Slots.replicate maxChildren Child.empty).get k).entry = none := by
  have hget : (Slots.replicate maxChildren Child.empty).get k = Child.empty :=
    get_replicate_default k
  rw [hget]
  rfl

/-- Anything read off the inodes changes at the inode written only. -/
theorem view_setInode {β : Type} (view : Inode → β) (fs : FileSystem) (inode : Inode)
    (hi : i < maxInodes) :
    (fun j => view ((fs.setInode i inode).inode j))
      = Function.update (fun j => view (fs.inode j)) i (view inode) := by
  funext j
  by_cases hj : j = i
  · subst hj
    rw [update_self, inode_setInode_self fs inode hi]
  · rw [update_of_ne hj, inode_setInode_other fs inode hj]

/-- Anything read off the inodes that is not about entries survives writing
    one. -/
theorem view_setChild {β : Type} (view : Inode → β)
    (hview : ∀ inode children, view { inode with children := children } = view inode)
    (fs : FileSystem) (d k : Nat) (child : Child) :
    (fun j => view ((fs.setChild d k child).inode j)) = fun j => view (fs.inode j) := by
  funext j
  rcases setChild_keeps fs d k child j with ⟨children, hkeep⟩
  rw [hkeep, hview]

/-- Writing a whole inode, as the tree sees it. -/
theorem tree_setInode (fs : FileSystem) (inode : Inode) (hi : i < maxInodes) :
    tree (fs.setInode i inode) =
      { node := Function.update (tree fs).node i inode.used
        dir := Function.update (tree fs).dir i (inode.kind == .directory)
        parent := Function.update (tree fs).parent i inode.parent
        entry := Function.update (tree fs).entry i (fun k => (inode.children.get k).entry) } :=
  Tree.ext (view_setInode (·.used) fs inode hi)
    (view_setInode (fun inode => inode.kind == .directory) fs inode hi)
    (view_setInode (·.parent) fs inode hi)
    (view_setInode (fun inode k => (inode.children.get k).entry) fs inode hi)

/-- Writing one entry, as the tree sees it. -/
theorem tree_setChild (fs : FileSystem) (child : Child) (hd : d < maxInodes) (hk : k < maxChildren) :
    tree (fs.setChild d k child)
      = { tree fs with entry := put (tree fs).entry d k child.entry } := by
  refine Tree.ext (view_setChild (·.used) (fun _ _ => rfl) fs d k child)
    (view_setChild (fun inode => inode.kind == .directory) (fun _ _ => rfl) fs d k child)
    (view_setChild (·.parent) (fun _ _ => rfl) fs d k child) (funext₂ fun j k' => ?_)
  change ((fs.setChild d k child).child j k').entry = put (tree fs).entry d k child.entry j k'
  rw [child_setChild fs child hd hk]
  by_cases hc : j = d ∧ k' = k
  · rw [if_pos hc, hc.1, hc.2, put_self]
  · rw [if_neg hc, put_other hc]
    rfl

/-- A change to an inode's mode, size or data is no change to the tree. -/
theorem tree_setInode_same (fs : FileSystem) (i : Nat) (inode : Inode)
    (hused : inode.used = (fs.inode i).used) (hkind : inode.kind = (fs.inode i).kind)
    (hparent : inode.parent = (fs.inode i).parent)
    (hchildren : inode.children = (fs.inode i).children) :
    tree (fs.setInode i inode) = tree fs := by
  by_cases hi : i < maxInodes
  · rw [tree_setInode fs inode hi, hused, hkind, hparent, hchildren]
    exact Tree.ext (update_eq_self i (tree fs).node)
      (update_eq_self i (tree fs).dir) (update_eq_self i (tree fs).parent)
      (update_eq_self i (tree fs).entry)
  · -- Past the end of the table nothing is written.
    have hinodes : fs.inodes.set i inode = fs.inodes :=
      ext_get (fun j hj => get_set_other _ _ (by omega))
    rw [FileSystem.setInode, hinodes]

theorem tree_chmod (s : Vfs) (i : Nat) (mode : UInt16) :
    tree (s.setFs (s.fs.setInode i { s.fs.inode i with mode := mode })).fs = tree s.fs :=
  tree_setInode_same s.fs i { s.fs.inode i with mode := mode } rfl rfl rfl rfl

theorem tree_written (s : Vfs) (i : Nat) (data : Slots fileMax UInt8) (size : Nat) :
    tree (s.setFs (s.fs.setInode i { s.fs.inode i with data := data, size := size })).fs
      = tree s.fs :=
  tree_setInode_same s.fs i { s.fs.inode i with data := data, size := size } rfl rfl rfl rfl

/-! ### What the code checked -/

variable {name : Name}

/-- A slot found by name is in use and carries the name. -/
theorem findChildSlot_some (h : findChildSlot fs d name = some k) :
    (fs.child d k).used = true ∧ (tree fs).entry d k = some ((fs.child d k).inode, name) := by
  rcases position_eq_some.mp h with ⟨-, htest, -⟩
  rw [Bool.and_eq_true, beq_iff_eq] at htest
  refine ⟨htest.1, (tree_entry htest.1).trans ?_⟩
  rw [FileSystem.child, htest.2]

/-- A name that is not found is in no entry. -/
theorem findChild_none (h : findChild fs d name = none) (k i : Nat) :
    (tree fs).entry d k ≠ some (i, name) := by
  intro he
  rcases used_of_entry he with ⟨hused, -, hname⟩
  rw [findChild, Option.map_eq_none_iff, findChildSlot, position_eq_none] at h
  have htest := h k (lt_of_child_used hused).2
  change ((fs.child d k).used && (fs.child d k).name == name) = false at htest
  rw [hused, hname, beq_self_eq_true] at htest
  exact absurd htest (by decide)

theorem findChild_some (h : findChild fs d name = some i) :
    ∃ k, (tree fs).entry d k = some (i, name) := by
  rcases findChild_eq_some h with ⟨k, hk, rfl⟩
  exact ⟨k, (findChildSlot_some hk).2⟩

variable {s : Vfs}

/-- Names lead to inodes in use. -/
theorem walkFrom_used (h : TreeInv s) :
    ∀ (components : List Name) (i j : Nat), (s.fs.inode i).used = true →
      walkFrom s.fs components i = some j → (s.fs.inode j).used = true := by
  intro components
  induction components with
  | nil =>
    intro i j hi hwalk
    rw [walkFrom, Option.some.injEq] at hwalk
    rwa [← hwalk]
  | cons component rest ih =>
    intro i j _ hwalk
    rw [walkFrom] at hwalk
    by_cases hkind : (s.fs.inode i).kind = .directory
    · rw [if_pos hkind, Option.bind_eq_some_iff] at hwalk
      rcases hwalk with ⟨child, hchild, hrest⟩
      rcases findChild_some hchild with ⟨k, hk⟩
      exact ih child j (h.target i k child component hk).1 hrest
    · rw [if_neg hkind] at hwalk
      cases hwalk

theorem resolves_used (hm : MountInv s) (h : TreeInv s) {ns : NamespaceId} {mount : MountId}
    (hres : Resolves s ns mount i) : (s.fs.inode i).used = true := by
  rcases (resolves_spec hm hres).1 with ⟨components, hwalk⟩
  exact walkFrom_used h components 0 i h.root_node hwalk

/-- A negative answer of the loop of `is_descendant` is a climb to the root
    that never met the ancestor. -/
theorem isDescendantFrom_climbs (h : TreeInv s) (ancestor : Nat) :
    ∀ (n current : Nat), (s.fs.inode current).used = true →
      isDescendantFrom s.fs ancestor n current = false →
      Climbs (tree s.fs).parent 0 (fun j => (tree s.fs).node j = true ∧ j ≠ ancestor) current := by
  intro n
  induction n with
  | zero =>
    -- A loop that runs out of turns answers `true`.
    intro current _ hfalse
    exact absurd hfalse (by simp [isDescendantFrom])
  | succ n ih =>
    intro current hused hfalse
    rw [isDescendantFrom] at hfalse
    by_cases ha : current = ancestor
    · rw [if_pos ha] at hfalse
      exact absurd hfalse (by decide)
    · rw [if_neg ha] at hfalse
      by_cases h0 : current = 0
      · rw [h0] at ha ⊢
        exact Climbs.root ⟨h.root_node, ha⟩
      · rw [if_neg h0] at hfalse
        refine Climbs.step ⟨hused, ha⟩ (ih _ ?_ hfalse)
        rcases h.linked current hused h0 with ⟨k, x, he⟩
        exact (h.owner _ k current x he).1

theorem isDescendant_climbs (h : TreeInv s) {candidate ancestor : Nat}
    (hused : (s.fs.inode candidate).used = true)
    (hfalse : isDescendant s.fs candidate ancestor = false) :
    Climbs (tree s.fs).parent 0 (fun j => (tree s.fs).node j = true ∧ j ≠ ancestor) candidate :=
  isDescendantFrom_climbs h ancestor maxInodes candidate hused hfalse

theorem dir_of_kind (h : (fs.inode i).kind = .directory) : (tree fs).dir i = true := by
  change ((fs.inode i).kind == .directory) = true
  rw [h]
  rfl

theorem kind_of_dir (h : (tree fs).dir i = true) : (fs.inode i).kind = .directory := by
  change ((fs.inode i).kind == .directory) = true at h
  rwa [beq_iff_eq] at h

/-- A regular inode has no entries. -/
theorem entry_of_regular (h : TreeInv s) (hkind : (s.fs.inode i).kind = .regular) (k : Nat) :
    (tree s.fs).entry i k = none := by
  cases he : (tree s.fs).entry i k with
  | none => rfl
  | some e =>
    have hdir := kind_of_dir (h.owner i k e.1 e.2 he).2
    rw [hkind] at hdir
    exact absurd hdir (by decide)

/-- A free entry is one `position` can return. -/
theorem entry_of_free (h : (fs.inode d).children.position (fun child => !child.used) = some k) :
    k < maxChildren ∧ (tree fs).entry d k = none := by
  rcases position_eq_some.mp h with ⟨hlt, hfree, -⟩
  rw [Bool.not_eq_true'] at hfree
  exact ⟨hlt, entry_free hfree⟩

/-! ### The changes as updates of the tree -/

variable {parent slot : Nat}

section Updates

variable {s : Vfs} (hm : MountInv s) (h : TreeInv s)

include h

/-- Removing an inode without entries unlinks it. -/
theorem tree_removed (hslot : findChildSlot s.fs parent name = some slot)
    (hleaf : ∀ k, (tree s.fs).entry (s.fs.child parent slot).inode k = none) :
    tree (removed s parent slot (s.fs.child parent slot).inode).fs
      = (tree s.fs).unlink parent slot (s.fs.child parent slot).inode false 0 := by
  rcases findChildSlot_some hslot with ⟨hused, hentry⟩
  rcases lt_of_child_used hused with ⟨hparent, hlt⟩
  have htarget := h.target _ _ _ _ hentry
  -- The directory has an entry and the inode removed has none.
  have hne : (s.fs.child parent slot).inode ≠ parent := by
    intro hc
    rw [hc] at hleaf
    rw [hleaf] at hentry
    exact nomatch hentry
  have hnone : (fun k => (Inode.empty.children.get k).entry)
      = put (tree s.fs).entry parent slot Child.empty.entry (s.fs.child parent slot).inode := by
    funext k
    rw [put_other (fun hc => hne hc.1), hleaf, Inode.empty, entry_replicate]
  change tree ((s.fs.setChild parent slot Child.empty).setInode _ Inode.empty) = _
  rw [tree_setInode _ _ (lt_of_inode_used htarget.1), tree_setChild _ _ hparent hlt, hnone,
    update_eq_self]
  rfl

include hm

/-- Creating a node links it. -/
theorem tree_created {mount : MountId} {parent inode slot : Nat} (name : Name) {kind : NodeType}
    {mode : UInt16} (hparent : Resolves s rootNamespace mount parent)
    (hinode : s.fs.inodes.position (fun inode => !inode.used) = some inode)
    (hslot : ((s.fs.setInode inode (Inode.new kind parent mode)).inode parent).children.position
      (fun child => !child.used) = some slot) :
    (tree s.fs).node inode = false ∧ (tree s.fs).entry parent slot = none ∧
      tree (created s parent inode slot name kind mode).fs
        = (tree s.fs).link parent slot inode name (kind == .directory) := by
  have hused := resolves_used hm h hparent
  rcases position_eq_some.mp hinode with ⟨hlt, hfree, -⟩
  rw [Bool.not_eq_true'] at hfree
  -- The directory is in use, so the inode written first is another one.
  have hne : parent ≠ inode := by
    rintro rfl
    rw [FileSystem.inode, hfree] at hused
    exact absurd hused (by decide)
  rw [inode_setInode_other s.fs _ hne] at hslot
  rcases entry_of_free hslot with ⟨hslotlt, hentry⟩
  -- A free inode has no entries, so clearing them is nothing new.
  have hnone : (fun k => ((Inode.new kind parent mode).children.get k).entry)
      = (tree s.fs).entry inode := by
    funext k
    rw [Inode.new, entry_replicate]
    cases he : (tree s.fs).entry inode k with
    | none => rfl
    | some e =>
      have howner : (s.fs.inode inode).used = true := (h.owner inode k e.1 e.2 he).1
      rw [FileSystem.inode, hfree] at howner
      exact absurd howner (by decide)
  refine ⟨hfree, hentry, ?_⟩
  change tree ((s.fs.setInode inode (Inode.new kind parent mode)).setChild parent slot _) = _
  rw [tree_setChild _ _ (lt_of_inode_used hused) hslotlt, tree_setInode _ _ hlt, hnone,
    update_eq_self]
  rfl

/-- Moving an entry between directories moves the node. -/
theorem tree_moved {newMount : MountId} {oldParent oldSlot newParent newSlot : Nat}
    {oldName : Name} (newName : Name) (hnew : Resolves s rootNamespace newMount newParent)
    (hslot : findChildSlot s.fs oldParent oldName = some oldSlot)
    (hfree : (s.fs.inode newParent).children.position (fun child => !child.used) = some newSlot) :
    tree (moved s oldParent oldSlot newParent newSlot (s.fs.child oldParent oldSlot).inode
        newName).fs
      = (tree s.fs).move oldParent oldSlot newParent newSlot (s.fs.child oldParent oldSlot).inode
        newName := by
  have hnused := resolves_used hm h hnew
  rcases findChildSlot_some hslot with ⟨hused, hentry⟩
  rcases lt_of_child_used hused with ⟨hparent, hlt⟩
  have htarget := h.target _ _ _ _ hentry
  generalize (s.fs.child oldParent oldSlot).inode = inode at htarget
  have hrelinked : tree (relinked s.fs oldParent oldSlot newParent newSlot inode newName)
      = { tree s.fs with
          entry := put (put (tree s.fs).entry oldParent oldSlot none) newParent newSlot
            (some (inode, newName)) } := by
    rw [relinked, tree_setChild _ _ (lt_of_inode_used hnused) (entry_of_free hfree).1,
      tree_setChild _ _ hparent hlt]
    rfl
  change tree ((relinked s.fs oldParent oldSlot newParent newSlot inode newName).setInode inode _)
    = _
  rw [tree_setInode _ _ (lt_of_inode_used htarget.1)]
  -- Every field but the parent is written back as it was.
  refine Tree.ext ?_ ?_ ?_ ?_
  · refine (update_eq_self inode (tree (relinked ..)).node).trans ?_
    rw [hrelinked]
    rfl
  · refine (update_eq_self inode (tree (relinked ..)).dir).trans ?_
    rw [hrelinked]
    rfl
  · rw [hrelinked]
    rfl
  · refine (update_eq_self inode (tree (relinked ..)).entry).trans ?_
    rw [hrelinked]
    rfl

end Updates

/-- Renaming an entry in place renames it. -/
theorem tree_renamed {oldName : Name} (newName : Name)
    (hslot : findChildSlot s.fs parent oldName = some slot) :
    tree (renamed s parent slot newName).fs = (tree s.fs).rename parent slot newName := by
  have hused := (findChildSlot_some hslot).1
  rcases lt_of_child_used hused with ⟨hparent, hlt⟩
  have hnew : Child.entry { s.fs.child parent slot with name := newName }
      = some ((s.fs.child parent slot).inode, newName) := if_pos hused
  change tree (s.fs.setChild parent slot _) = _
  rw [tree_setChild _ _ hparent hlt, hnew, Tree.rename, tree_entry hused]
  rfl

/-! ### Every change -/

theorem freshRamfs_inode (i : Nat) :
    freshRamfs.fs.inode i = if i = 0 then Inode.new .directory 0 0o755 else Inode.empty := by
  have hset := get_set (Slots.replicate maxInodes Inode.empty) (i := 0)
    (Inode.new .directory 0 0o755) (by decide) i
  have hrest : (Slots.replicate maxInodes Inode.empty).get i = Inode.empty :=
    get_replicate_default i
  rw [hrest] at hset
  exact hset

theorem freshRamfs_entry (d k : Nat) : (tree freshRamfs.fs).entry d k = none := by
  change (((freshRamfs.fs.inode d).children).get k).entry = none
  rw [freshRamfs_inode]
  by_cases hd : d = 0
  · rw [if_pos hd]
    exact entry_replicate k
  · rw [if_neg hd]
    exact entry_replicate k

theorem freshRamfs_treeInv : TreeInv freshRamfs := by
  have hno : ∀ d k e, (tree freshRamfs.fs).entry d k ≠ some e := by
    intro d k e he
    rw [freshRamfs_entry] at he
    exact nomatch he
  have honly : ∀ i, (tree freshRamfs.fs).node i = true → i = 0 := by
    intro i hi
    change (freshRamfs.fs.inode i).used = true at hi
    by_contra hne
    rw [freshRamfs_inode, if_neg hne] at hi
    exact absurd hi (by decide)
  have hroot : (tree freshRamfs.fs).node 0 = true := by decide
  refine ⟨hroot, by decide, ?_, ?_, ?_, ?_, ?_, ?_⟩
  · intro d k i x he
    exact absurd he (hno d k _)
  · intro d k i x he
    exact absurd he (hno d k _)
  · intro d k k' i x y he
    exact absurd he (hno d k _)
  · intro d k k' i j x he
    exact absurd he (hno d k _)
  · intro i hi hne
    exact absurd (honly i hi) hne
  · intro i hi
    rw [honly i hi]
    exact Climbs.root hroot

/-- What a removal was allowed to remove has no entries. -/
theorem entry_of_removable (h : TreeInv s) {P Q : Prop}
    (hkind : ((s.fs.inode i).kind = .regular ∧ P) ∨ ((s.fs.inode i).kind = .directory ∧ (s.fs.inode
      i).children.any (fun entry => entry.used) = false ∧ Q)) (k : Nat) :
    (tree s.fs).entry i k = none := by
  rcases hkind with ⟨hreg, -⟩ | ⟨-, hempty, -⟩
  · exact entry_of_regular h hreg k
  · by_cases hk : k < maxChildren
    · exact entry_free (any_eq_false.mp hempty k hk)
    · change Child.entry (FileSystem.child _ _ _) = none
      rw [FileSystem.child, get_of_ge _ (Nat.not_lt.mp hk)]
      rfl

variable {π : Policy} {s' : Vfs}

/-- Every change keeps the tree well formed. -/
theorem change_treeInv (hm : MountInv s) (h : TreeInv s) (hc : Change π s s') : TreeInv s' := by
  cases hc with
  | @create _ _ _ _ name _ _ hparent hdir hname hinode hslot =>
    rcases tree_created hm h name hparent hinode hslot with ⟨hfree, hentry, htree⟩
    rw [TreeInv, htree]
    exact link_wellFormed h (resolves_used hm h hparent) (dir_of_kind hdir) hfree hentry
      (findChild_none hname)
  | remove _ hslot hkind =>
    have hleaf := entry_of_removable h hkind
    rw [TreeInv, tree_removed h hslot hleaf]
    exact unlink_wellFormed h (findChildSlot_some hslot).2 hleaf
  | @renameHere _ _ _ _ newName _ hold hnew =>
    rw [TreeInv, tree_renamed newName hold]
    exact rename_wellFormed h (findChild_none hnew)
  | @move _ _ oldParent oldSlot _ _ _ newName _ hnew hdir _ hslot hname hdesc hfree =>
    have hnused := resolves_used hm h hnew
    have hentry := (findChildSlot_some hslot).2
    rw [TreeInv, tree_moved hm h newName hnew hslot hfree]
    refine move_wellFormed h hentry hnused (dir_of_kind hdir) (entry_of_free hfree).2
      (findChild_none hname) ?_
    -- Only for a directory is there something below it to avoid.
    cases hkind : (s.fs.inode (s.fs.child oldParent oldSlot).inode).kind with
    | directory => exact isDescendant_climbs h hnused (hdesc hkind)
    | regular =>
      refine h.climbs_leaf (h.target _ _ _ _ hentry).2.1 (entry_of_regular h hkind) hnused
        (fun hc => ?_)
      rw [← hc, hdir] at hkind
      exact absurd hkind (by decide)
  | chmod =>
    rw [TreeInv, tree_chmod]
    exact h
  | write _ =>
    rw [TreeInv, tree_written]
    exact h
  | fresh _ => exact freshRamfs_treeInv
  | _ => exact h

/-- The two tables together, in every state and under every policy. -/
def TablesInv (s : Vfs) : Prop := MountInv s ∧ TreeInv s

/-- What an inode in use is does not change, unless it is removed or everything
    starts afresh. -/
theorem change_kept (h : TablesInv s) (hc : Change π s s') :
    (π.remount ∧ s' = freshRamfs) ∨ ∀ i, (tree s.fs).node i = true →
      (((s.fs.inode i).kind = .regular ∧ hasOpenHandle s.fs i = false) ∨
        ((s.fs.inode i).kind = .directory ∧ π.removeDirectory s i) → False) →
      (tree s'.fs).node i = (tree s.fs).node i ∧ (tree s'.fs).dir i = (tree s.fs).dir i := by
  rcases h with ⟨hm, ht⟩
  cases hc with
  | @create _ _ inode _ name _ _ hparent _ _ hinode hslot =>
    refine .inr fun i hused _ => ?_
    rcases tree_created hm ht name hparent hinode hslot with ⟨hfree, -, htree⟩
    have hne : i ≠ inode := fun heq => absurd (hused.symm.trans (heq ▸ hfree)) (by decide)
    rw [htree]
    exact ⟨update_of_ne hne _ _, update_of_ne hne _ _⟩
  | @remove _ parent slot _ _ hslot hkind =>
    refine .inr fun i _ hkeep => ?_
    have hne : i ≠ (s.fs.child parent slot).inode := by
      rintro rfl
      exact hkeep (hkind.imp_right fun hdirectory => ⟨hdirectory.1, hdirectory.2.2⟩)
    rw [tree_removed ht hslot (entry_of_removable ht hkind)]
    exact ⟨update_of_ne hne _ _, update_of_ne hne _ _⟩
  | @renameHere _ _ _ _ newName _ hold _ =>
    rw [tree_renamed newName hold]
    exact .inr fun _ _ _ => ⟨rfl, rfl⟩
  | @move _ _ _ _ _ _ _ newName _ hnew _ _ hslot _ _ hfree =>
    rw [tree_moved hm ht newName hnew hslot hfree]
    exact .inr fun _ _ _ => ⟨rfl, rfl⟩
  | chmod =>
    rw [tree_chmod]
    exact .inr fun _ _ _ => ⟨rfl, rfl⟩
  | write _ =>
    rw [tree_written]
    exact .inr fun _ _ _ => ⟨rfl, rfl⟩
  | fresh hallowed => exact .inl ⟨hallowed, rfl⟩
  | _ => exact .inr fun _ _ _ => ⟨rfl, rfl⟩

theorem change_tablesInv (h : TablesInv s) (hc : Change π s s') :
    TablesInv s' :=
  ⟨change_mountInv h.1 hc, change_treeInv h.1 h.2 hc⟩

/-- Whatever the callers ask for, in whatever order. -/
theorem reachable_tablesInv (calls : List Call) :
    TablesInv (run World.step World.start calls).vfs := by
  refine run_vfs_invariant Policy.any TablesInv ⟨freshRamfs_mountInv, freshRamfs_treeInv⟩
    (fun _ _ hs hc => change_tablesInv hs hc) calls ?_
  exact obeys_of_forall _ _ allowed_any World.start calls

/-- The directory tree after any sequence of requests: every inode in use but
    the root has exactly one entry; an entry in use sits in a directory in use
    and leads to an inode in use that names that directory as its parent; names
    are unique in a directory; a regular inode has no entries; and following
    parents arrives at the root without passing anywhere twice. -/
theorem reachable_tree_wellFormed (calls : List Call) :
    let fs := (run World.step World.start calls).vfs.fs
    (∀ i, (fs.inode i).used = true → i ≠ 0 → ∃! entry : Nat × Nat,
      (fs.child entry.1 entry.2).used = true ∧ (fs.child entry.1 entry.2).inode = i) ∧
    (∀ d k, (fs.child d k).used = true →
      (fs.inode d).used = true ∧ (fs.inode d).kind = .directory ∧
      (fs.inode (fs.child d k).inode).used = true ∧ (fs.child d k).inode ≠ 0 ∧
      (fs.inode (fs.child d k).inode).parent = d) ∧
    (∀ d k k', (fs.child d k).used = true → (fs.child d k').used = true →
      (fs.child d k).name = (fs.child d k').name → k = k') ∧
    (∀ i, (fs.inode i).kind = .regular → ∀ k, (fs.child i k).used = false) ∧
    (∀ i, (fs.inode i).used = true → ∃ n, (fun j => (fs.inode j).parent)^[n] i = 0 ∧
      ∀ a b, a < b → b ≤ n →
        (fun j => (fs.inode j).parent)^[a] i ≠ (fun j => (fs.inode j).parent)^[b] i) := by
  intro fs
  have h : (tree fs).WellFormed 0 := (reachable_tablesInv calls).2
  refine ⟨?_, ?_, ?_, ?_, ?_⟩
  · intro i hi hne
    rcases h.linked i hi hne with ⟨k, x, he⟩
    refine ⟨((fs.inode i).parent, k), ⟨(used_of_entry he).1, (used_of_entry he).2.1⟩, ?_⟩
    rintro ⟨d', k'⟩ ⟨hused, htarget⟩
    have he' := tree_entry hused
    rw [htarget] at he'
    exact Prod.ext (h.unique he he').1 (h.unique he he').2
  · intro d k hused
    have howner := h.owner _ _ _ _ (tree_entry hused)
    exact ⟨howner.1, kind_of_dir howner.2, h.target _ _ _ _ (tree_entry hused)⟩
  · intro d k k' hused hused' hname
    have he := tree_entry hused
    rw [hname] at he
    exact h.named d k k' _ _ _ he (tree_entry hused')
  · intro i hkind k
    by_contra hused
    rw [Bool.not_eq_false] at hused
    have hnone := entry_of_regular h hkind k
    rw [tree_entry hused] at hnone
    exact nomatch hnone
  · intro i hi
    exact climbs_acyclic (h.rooted i hi)

/-- A path leads where the directory tree does, in every namespace there is: what is
    mounted decides the mount it is found in and never the inode. -/
theorem resolve_follows_tree (calls : List Call) (path : Path) (ns : NamespaceId) (i : Nat) :
    let s := (run World.step World.start calls).vfs
    (∃ mount, resolveMount s path ns = .ok (mount, i)) ↔ (s.namespaces.get ns).used = true ∧
      ∃ names, parsePath path = .ok names ∧ walkFrom s.fs names 0 = some i := by
  intro s
  have h : MountInv s := (reachable_tablesInv calls).1
  constructor
  · rintro ⟨mount, hres⟩
    rcases resolveMount_ok hres with ⟨names, start, hparse, hroot, hwalk⟩
    exact ⟨(namespaceRoot_ok hroot).1, names, hparse, resolveFrom_walk h names _ _ hwalk⟩
  · rintro ⟨hns, names, hparse, hwalk⟩
    rcases resolveFrom_total h ns names ((s.namespaces.get ns).rootMount, 0) i hwalk with
      ⟨mount, hres⟩
    exact ⟨mount, by simpa [resolveMount, hparse, namespaceRoot, hns] using hres⟩

end Vfs

end Norx
