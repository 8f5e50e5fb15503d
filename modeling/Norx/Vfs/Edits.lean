import Norx.Vfs.Tree

/-!
# What a Request Does to the Tree

`Change` says what any request may do to the tables. Here is what a particular
one may do to the inode table: which inode it may free and which names it may
write. An inode number is a slot of the table, and a freed slot is handed out
again by the next `create`, so a number someone has written down means the same
node only while nothing has freed it. Three requests free inodes: `unlink` and
`remove_dir`, the one their path names, and `mount_ramfs`, which starts over.

## Theorems

* `step_edits`: A request stays within its scope.
-/

namespace Norx

namespace Vfs

open Fallible

variable {π : Scope} {s s' : Vfs}

/-- A request stays within its scope, unless it starts over. -/
theorem step_edits (w : World) (call : Call) :
    Edits (call.scope w.vfs) w.vfs (w.step call).vfs ∨
      (call = .mountRamfs ∧ w.vfs.mounted = false ∧ (w.step call).vfs = freshRamfs) :=
  (step_does .any w call (allowed_any w call)).imp_left Done.edits

/-! ### Nodes that are kept -/

/-- An inode in use stays in use, as the same kind of node. -/
def KeepsNode (s s' : Vfs) (i : Nat) : Prop :=
  (s.fs.inode i).used = true →
    (s'.fs.inode i).used = true ∧ (s'.fs.inode i).kind = (s.fs.inode i).kind

theorem keepsNode_refl (s : Vfs) (i : Nat) : KeepsNode s s i := fun hused => ⟨hused, rfl⟩

variable {i : Nat}

theorem KeepsNode.trans {s'' : Vfs} (h : KeepsNode s s' i) (h' : KeepsNode s' s'' i) :
    KeepsNode s s'' i := by
  intro hused
  rcases h hused with ⟨hused', hkind⟩
  rcases h' hused' with ⟨hused'', hkind'⟩
  exact ⟨hused'', hkind'.trans hkind⟩

/-- It is enough that the two fields are as they were. -/
theorem keepsNode_of_eq (hused : (s'.fs.inode i).used = (s.fs.inode i).used)
    (hkind : (s'.fs.inode i).kind = (s.fs.inode i).kind) : KeepsNode s s' i := by
  intro h
  rw [hused]
  exact ⟨h, hkind⟩

/-- Writing an entry changes no inode but in its list of children. -/
theorem keepsNode_setChild (s : Vfs) (fs : FileSystem) (d k : Nat) (child : Child) (i : Nat)
    (h : KeepsNode s (s.setFs fs) i) : KeepsNode s (s.setFs (fs.setChild d k child)) i := by
  refine h.trans ?_
  rcases setChild_keeps fs d k child i with ⟨children, hkeep⟩
  have hinode : (s.setFs (fs.setChild d k child)).fs.inode i
      = { fs.inode i with children := children } := hkeep
  exact keepsNode_of_eq (by rw [hinode]; rfl) (by rw [hinode]; rfl)

/-- Rewriting an inode, with what makes it the node it is left alone. -/
theorem keepsNode_setInode (s : Vfs) (fs : FileSystem) {j : Nat} {inode : Inode} (i : Nat)
    (hused : inode.used = (fs.inode j).used) (hkind : inode.kind = (fs.inode j).kind)
    (h : KeepsNode s (s.setFs fs) i) : KeepsNode s (s.setFs (fs.setInode j inode)) i := by
  refine h.trans ?_
  by_cases hij : i = j
  · subst hij
    intro hi
    have hself : (s.setFs (fs.setInode i inode)).fs.inode i = inode :=
      inode_setInode_self fs inode (lt_of_inode_used (show (fs.inode i).used = true from hi))
    rw [hself, hused, hkind]
    exact ⟨hi, rfl⟩
  · have hother : (s.setFs (fs.setInode j inode)).fs.inode i = fs.inode i :=
      inode_setInode_other fs inode hij
    exact keepsNode_of_eq (by rw [hother]; rfl) (by rw [hother]; rfl)

/-- A new node takes a slot that was free. -/
theorem created_keeps {inode : Nat} (parent slot : Nat) (name : Name) (kind : NodeType)
    (mode : UInt16) (hinode : s.fs.inodes.position (fun inode => !inode.used) = some inode)
    (i : Nat) : KeepsNode s (created s parent inode slot name kind mode) i := by
  refine keepsNode_setChild s _ _ _ _ i (fun hused => ?_)
  have hfree := (Slots.position_eq_some.mp hinode).2.1
  rw [Bool.not_eq_true'] at hfree
  have hne : i ≠ inode := by
    rintro rfl
    rw [FileSystem.inode, hfree] at hused
    exact absurd hused (by decide)
  have hother : (s.setFs (s.fs.setInode inode (Inode.new kind parent mode))).fs.inode i
      = s.fs.inode i := inode_setInode_other s.fs _ hne
  rw [hother]
  exact ⟨hused, rfl⟩

/-- Removing an entry frees the inode behind it and no other. -/
theorem removed_keeps (s : Vfs) (parent slot : Nat) {inode : Nat} (hne : i ≠ inode) :
    KeepsNode s (removed s parent slot inode) i := by
  have hother : (removed s parent slot inode).fs.inode i
      = (s.fs.setChild parent slot Child.empty).inode i := inode_setInode_other _ _ hne
  refine (keepsNode_setChild s s.fs parent slot Child.empty i (keepsNode_refl s i)).trans ?_
  exact keepsNode_of_eq (by rw [hother]; rfl) (by rw [hother]; rfl)

theorem edit_keepsNode (h : Edit π s s') (hi : ¬ π.frees i) : KeepsNode s s' i := by
  cases h with
  | keep hinodes =>
    exact keepsNode_of_eq (by rw [FileSystem.inode, hinodes, FileSystem.inode])
      (by rw [FileSystem.inode, hinodes, FileSystem.inode])
  | rewrite hused hkind _ => exact keepsNode_setInode s s.fs i hused hkind (keepsNode_refl s i)
  | create hinode _ => exact created_keeps _ _ _ _ _ hinode i
  | remove hfrees =>
    refine removed_keeps s _ _ ?_
    rintro rfl
    exact hi hfrees
  | rename _ => exact keepsNode_setChild s s.fs _ _ _ i (keepsNode_refl s i)
  | move _ =>
    exact keepsNode_setInode s _ i rfl rfl (keepsNode_setChild s _ _ _ _ i
      (keepsNode_setChild s s.fs _ _ _ i (keepsNode_refl s i)))

theorem edits_keepsNode (h : Edits π s s') (hi : ¬ π.frees i) : KeepsNode s s' i := by
  induction h with
  | refl => exact keepsNode_refl s i
  | tail _ hone ih => exact ih.trans (edit_keepsNode hone hi)

/-! ### Names -/

/-- Every entry in use carries a name of this kind. -/
def NamesAre (P : Name → Prop) (fs : FileSystem) : Prop :=
  ∀ d k, (fs.child d k).used = true → P (fs.child d k).name

/-- An entry after one was written: the new one, or as it was. -/
theorem child_setChild_cases (fs : FileSystem) (d k : Nat) (child : Child) (d' k' : Nat) :
    (fs.setChild d k child).child d' k' = child
      ∨ (fs.setChild d k child).child d' k' = fs.child d' k' := by
  rw [FileSystem.child, FileSystem.setChild, FileSystem.setInode, FileSystem.inode]
  rcases Slots.get_set_cases fs.inodes d
    { fs.inode d with children := (fs.inode d).children.set k child } d' with ⟨rfl, hnew⟩ | hold
  · rw [hnew]
    rcases Slots.get_set_cases (fs.inode d').children k child k' with ⟨-, hwritten⟩ | hkept
    · exact .inl hwritten
    · exact .inr hkept
  · rw [hold]
    exact .inr rfl

variable {P : Name → Prop}

theorem namesAre_setChild {fs : FileSystem} (h : NamesAre P fs) (d k : Nat) {child : Child}
    (hchild : child.used = true → P child.name) : NamesAre P (fs.setChild d k child) := by
  intro d' k' hused
  rcases child_setChild_cases fs d k child d' k' with hnew | hold
  · rw [hnew] at hused ⊢
    exact hchild hused
  · rw [hold] at hused ⊢
    exact h d' k' hused

theorem namesAre_setInode {fs : FileSystem} (h : NamesAre P fs) (i : Nat) {inode : Inode}
    (hinode : ∀ k, (inode.children.get k).used = true → P (inode.children.get k).name) :
    NamesAre P (fs.setInode i inode) := by
  intro d k hused
  by_cases hd : d = i
  · subst hd
    have hlt := (lt_of_child_used hused).1
    rw [FileSystem.child, inode_setInode_self fs inode hlt] at hused ⊢
    exact hinode k hused
  · rw [FileSystem.child, inode_setInode_other fs inode hd] at hused ⊢
    exact h d k hused

/-- A directory just made or cleared has no names. -/
theorem names_replicate (k : Nat)
    (hused : ((Slots.replicate maxChildren Child.empty).get k).used = true) :
    P ((Slots.replicate maxChildren Child.empty).get k).name := by
  have hget : (Slots.replicate maxChildren Child.empty).get k = Child.empty :=
    Slots.get_replicate_default k
  rw [hget] at hused
  exact absurd hused (by decide)

theorem edit_namesAre (hwrites : ∀ name, π.writes name → P name) (hedit : Edit π s s')
    (h : NamesAre P s.fs) : NamesAre P s'.fs := by
  have hempty : Child.empty.used = true → P Child.empty.name := fun hc => absurd hc (by decide)
  cases hedit with
  | keep hinodes =>
    intro d k hused
    rw [FileSystem.child, FileSystem.inode, hinodes] at hused ⊢
    exact h d k hused
  | @rewrite i inode _ _ hchildren =>
    refine namesAre_setInode h i (fun k hused => ?_)
    rw [hchildren] at hused ⊢
    exact h i k hused
  | create _ hname =>
    exact namesAre_setChild (namesAre_setInode h _ names_replicate) _ _ (fun _ => hwrites _ hname)
  | remove _ => exact namesAre_setInode (namesAre_setChild h _ _ hempty) _ names_replicate
  | rename hname => exact namesAre_setChild h _ _ (fun _ => hwrites _ hname)
  | @move oldParent oldSlot newParent newSlot inode name hname =>
    have hlinked : NamesAre P (relinked s.fs oldParent oldSlot newParent newSlot inode name) :=
      namesAre_setChild (namesAre_setChild h _ _ hempty) _ _ (fun _ => hwrites _ hname)
    exact namesAre_setInode hlinked _ (fun k hused => hlinked _ k hused)

theorem edits_namesAre (hwrites : ∀ name, π.writes name → P name) (h : Edits π s s')
    (hs : NamesAre P s.fs) : NamesAre P s'.fs := by
  induction h with
  | refl => exact hs
  | tail _ hone ih => exact edit_namesAre hwrites hone ih

end Vfs

end Norx
