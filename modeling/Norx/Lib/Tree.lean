import Norx.Lib.Forest

/-!
# Directory Trees

A tree kept twice: every node names its parent, and every directory lists its
children in named entries. A table-based file system stores exactly this, and
its operations have to move both halves together.

`WellFormed` is the agreement of the two halves. The four updates are those of
a file system, each with the condition under which it keeps the agreement:
linking a node that was not there, unlinking a leaf, renaming an entry, and
moving an entry to a directory outside the subtree that moves.

## Main definitions

* `Tree`: Nodes, directories, parents and entries.
* `Tree.WellFormed`: The entries and the parents describe one tree.
* `Tree.link`, `Tree.unlink`, `Tree.rename`, `Tree.move`: The updates.

## Theorems

* `WellFormed.unique`: A node has one entry in the whole tree.
* `WellFormed.climbs_leaf`: Climbs stay clear of leaves.
* `WellFormed.child_irrefl`: No node is below itself.
* `link_wellFormed`, `unlink_wellFormed`, `rename_wellFormed`,
  `move_wellFormed`: The updates keep a tree well formed.
-/

namespace Norx

open Function

/-- A tree stored as a parent per node and named entries per directory. -/
@[ext]
structure Tree (ι κ ν : Type) where
  node : ι → Bool
  dir : ι → Bool
  parent : ι → ι
  entry : ι → κ → Option (ι × ν)

namespace Tree

variable {ι κ ν : Type} {t : Tree ι κ ν} {root : ι}

/-- The entries and the parents describe one tree below the root. -/
structure WellFormed (t : Tree ι κ ν) (root : ι) : Prop where
  root_node : t.node root = true
  root_dir : t.dir root = true
  owner : ∀ d k i x, t.entry d k = some (i, x) → t.node d = true ∧ t.dir d = true
  target : ∀ d k i x, t.entry d k = some (i, x) → t.node i = true ∧ i ≠ root ∧ t.parent i = d
  once : ∀ d k k' i x y, t.entry d k = some (i, x) → t.entry d k' = some (i, y) → k = k'
  named : ∀ d k k' i j x, t.entry d k = some (i, x) → t.entry d k' = some (j, x) → k = k'
  linked : ∀ i, t.node i = true → i ≠ root → ∃ k x, t.entry (t.parent i) k = some (i, x)
  rooted : ∀ i, t.node i = true → Climbs t.parent root (fun j => t.node j = true) i

variable {k k' : κ}

/-- A node has one entry in the whole tree. -/
theorem WellFormed.unique (h : t.WellFormed root) {d d' i : ι} {x y : ν}
    (hk : t.entry d k = some (i, x)) (hk' : t.entry d' k' = some (i, y)) : d' = d ∧ k' = k := by
  have hd : d' = d := (h.target d' k' i y hk').2.2.symm.trans (h.target d k i x hk).2.2
  rw [hd] at hk'
  exact ⟨hd, h.once d k' k i y x hk' hk⟩

/-- A climb from elsewhere never passes through a node without entries, since
    the parent of a node has an entry for it. -/
theorem WellFormed.climbs_leaf (h : t.WellFormed root) {i j : ι} (hi : i ≠ root)
    (hleaf : ∀ k, t.entry i k = none) (hj : t.node j = true) (hji : j ≠ i) :
    Climbs t.parent root (fun a => t.node a = true ∧ a ≠ i) j := by
  -- Induction on the climb itself, so that the node is free to vary.
  have hclimb := h.rooted j hj
  clear hj
  induction hclimb with
  | root _ => exact Climbs.root ⟨h.root_node, hi.symm⟩
  | @step a ha _ ih =>
    by_cases har : a = root
    · rw [har]
      exact Climbs.root ⟨h.root_node, hi.symm⟩
    · refine Climbs.step ⟨ha, hji⟩ (ih ?_)
      rcases h.linked a ha har with ⟨k, x, he⟩
      intro hpar
      rw [hpar, hleaf] at he
      exact nomatch he

/-- The node `i` has an entry in the directory `d`. -/
def Child (t : Tree ι κ ν) (d i : ι) : Prop := ∃ k x, t.entry d k = some (i, x)

/-- No node is below itself: the last step of such a path starts at the node's
    parent, which would then be below itself too, and so on up to the root,
    which has no entry. -/
theorem WellFormed.child_irrefl (h : t.WellFormed root) {i : ι} :
    ¬ Relation.TransGen t.Child i i := by
  intro hloop
  have hnode : t.node i = true := by
    rcases Relation.TransGen.tail'_iff.mp hloop with ⟨p, -, k, x, he⟩
    exact (h.target p k i x he).1
  have hclimb := h.rooted i hnode
  clear hnode
  induction hclimb with
  -- The root has no entry, so no path ends there.
  | root _ =>
    rcases Relation.TransGen.tail'_iff.mp hloop with ⟨p, -, k, x, he⟩
    exact (h.target p k root x he).2.1 rfl
  | @step a _ _ ih =>
    rcases Relation.TransGen.tail'_iff.mp hloop with ⟨p, hdown, hlast⟩
    rcases hlast with ⟨k, x, he⟩
    have hp : t.parent a = p := (h.target p k a x he).2.2
    refine ih ?_
    rw [hp]
    exact Relation.TransGen.head' ⟨k, x, he⟩ hdown

variable [DecidableEq ι] [DecidableEq κ]

/-- Write one entry of one directory. -/
def put (entry : ι → κ → Option (ι × ν)) (d : ι) (k : κ) (v : Option (ι × ν)) :
    ι → κ → Option (ι × ν) :=
  fun d' k' => if d' = d ∧ k' = k then v else entry d' k'

theorem put_self (entry : ι → κ → Option (ι × ν)) (d : ι) (k : κ) (v : Option (ι × ν)) :
    put entry d k v d k = v := by
  rw [put, if_pos ⟨rfl, rfl⟩]

variable {entry : ι → κ → Option (ι × ν)} {v : Option (ι × ν)}

theorem put_other {d d' : ι} (h : ¬ (d' = d ∧ k' = k)) : put entry d k v d' k' = entry d' k' := by
  rw [put, if_neg h]

/-- An entry after a write is the one written or an old one elsewhere. -/
theorem put_eq_some {d d' : ι} {e : ι × ν} (h : put entry d k v d' k' = some e) :
    (d' = d ∧ k' = k ∧ v = some e) ∨ (¬ (d' = d ∧ k' = k) ∧ entry d' k' = some e) := by
  by_cases hc : d' = d ∧ k' = k
  · rw [put, if_pos hc] at h
    exact .inl ⟨hc.1, hc.2, h⟩
  · rw [put, if_neg hc] at h
    exact .inr ⟨hc, h⟩

/-- Add the node `i` under the directory `d`, in its entry `k`. -/
def link (t : Tree ι κ ν) (d : ι) (k : κ) (i : ι) (x : ν) (isDir : Bool) : Tree ι κ ν where
  node := Function.update t.node i true
  dir := Function.update t.dir i isDir
  parent := Function.update t.parent i d
  entry := put t.entry d k (some (i, x))

/-- Drop the node `i` and its entry. What the dead node's other fields are set
    to does not matter. -/
def unlink (t : Tree ι κ ν) (d : ι) (k : κ) (i : ι) (isDir : Bool) (p : ι) : Tree ι κ ν where
  node := Function.update t.node i false
  dir := Function.update t.dir i isDir
  parent := Function.update t.parent i p
  entry := put t.entry d k none

/-- Give the entry `k` of `d` a new name. -/
def rename (t : Tree ι κ ν) (d : ι) (k : κ) (x : ν) : Tree ι κ ν :=
  { t with entry := put t.entry d k ((t.entry d k).map (fun e => (e.1, x))) }

/-- Move the node `i` from the entry `k` of `d` to the entry `k'` of `d'`. -/
def move (t : Tree ι κ ν) (d : ι) (k : κ) (d' : ι) (k' : κ) (i : ι) (x : ν) : Tree ι κ ν :=
  { t with
    parent := Function.update t.parent i d'
    entry := put (put t.entry d k none) d' k' (some (i, x)) }

theorem link_wellFormed (h : t.WellFormed root) {d i : ι} {k : κ} {x : ν} {isDir : Bool}
    (hd : t.node d = true) (hdir : t.dir d = true) (hi : t.node i = false)
    (hk : t.entry d k = none) (hx : ∀ k' j, t.entry d k' ≠ some (j, x)) :
    (t.link d k i x isDir).WellFormed root := by
  have hne : ∀ {j}, t.node j = true → j ≠ i := by
    intro j hj hji
    rw [hji, hi] at hj
    exact absurd hj (by decide)
  have hroot := hne h.root_node
  -- Old nodes keep everything; only `i` is new.
  have hnode : ∀ {j}, j ≠ i → (t.link d k i x isDir).node j = t.node j :=
    fun hj => update_of_ne hj _ _
  have hdirs : ∀ {j}, j ≠ i → (t.link d k i x isDir).dir j = t.dir j :=
    fun hj => update_of_ne hj _ _
  have hpar : ∀ {j}, j ≠ i → (t.link d k i x isDir).parent j = t.parent j :=
    fun hj => update_of_ne hj _ _
  have hself : (t.link d k i x isDir).node i = true := update_self ..
  have hpself : (t.link d k i x isDir).parent i = d := update_self ..
  have hold : ∀ {j}, t.node j = true →
      Climbs (t.link d k i x isDir).parent root
        (fun j => (t.link d k i x isDir).node j = true) j := by
    intro j hj
    refine climbs_mono (climbs_congr (h.rooted j hj) (fun a ha => hpar (hne ha))) (fun a ha => ?_)
    rw [hnode (hne ha)]
    exact ha
  refine ⟨?_, ?_, ?_, ?_, ?_, ?_, ?_, ?_⟩
  · rw [hnode hroot]
    exact h.root_node
  · rw [hdirs hroot]
    exact h.root_dir
  · -- The owner of the new entry is the directory given, a node from before.
    intro d' k' j y he
    rcases put_eq_some he with ⟨rfl, -, -⟩ | ⟨-, he⟩
    · rw [hnode (hne hd), hdirs (hne hd)]
      exact ⟨hd, hdir⟩
    · have ho := h.owner d' k' j y he
      rw [hnode (hne ho.1), hdirs (hne ho.1)]
      exact ho
  · intro d' k' j y he
    rcases put_eq_some he with ⟨rfl, -, he⟩ | ⟨-, he⟩
    · obtain ⟨rfl, rfl⟩ := Prod.mk.inj (Option.some.inj he)
      exact ⟨hself, hroot.symm, hpself⟩
    · have ht := h.target d' k' j y he
      rw [hnode (hne ht.1), hpar (hne ht.1)]
      exact ht
  · -- No old entry leads to the new node, so two entries of one node are both old or
    -- both the new one.
    intro d' k₁ k₂ j y z h₁ h₂
    rcases put_eq_some h₁ with ⟨-, hk₁, he₁⟩ | ⟨-, he₁⟩
    · rcases put_eq_some h₂ with ⟨-, hk₂, -⟩ | ⟨-, he₂⟩
      · rw [hk₁, hk₂]
      · rw [← (Prod.mk.inj (Option.some.inj he₁)).1] at he₂
        exact absurd rfl (hne (h.target _ _ _ _ he₂).1)
    · rcases put_eq_some h₂ with ⟨-, -, he₂⟩ | ⟨-, he₂⟩
      · rw [← (Prod.mk.inj (Option.some.inj he₂)).1] at he₁
        exact absurd rfl (hne (h.target _ _ _ _ he₁).1)
      · exact h.once d' k₁ k₂ j y z he₁ he₂
  · -- The new name was not taken in its directory.
    intro d' k₁ k₂ j j' y h₁ h₂
    rcases put_eq_some h₁ with ⟨hd₁, hk₁, he₁⟩ | ⟨-, he₁⟩
    · rcases put_eq_some h₂ with ⟨-, hk₂, -⟩ | ⟨-, he₂⟩
      · rw [hk₁, hk₂]
      · rw [← (Prod.mk.inj (Option.some.inj he₁)).2, hd₁] at he₂
        exact absurd he₂ (hx _ _)
    · rcases put_eq_some h₂ with ⟨hd₂, -, he₂⟩ | ⟨-, he₂⟩
      · rw [← (Prod.mk.inj (Option.some.inj he₂)).2, hd₂] at he₁
        exact absurd he₁ (hx _ _)
      · exact h.named d' k₁ k₂ j j' y he₁ he₂
  · intro j hj hjr
    by_cases hji : j = i
    · rw [hji, hpself]
      exact ⟨k, x, put_self ..⟩
    · rw [hnode hji] at hj
      rw [hpar hji]
      rcases h.linked j hj hjr with ⟨k', y, he⟩
      -- The write went to a free entry, so the old one is still there.
      refine ⟨k', y, (put_other ?_).trans he⟩
      rintro ⟨hd', rfl⟩
      rw [hd', hk] at he
      exact nomatch he
  · intro j hj
    by_cases hji : j = i
    · rw [hji]
      refine Climbs.step hself ?_
      rw [hpself]
      exact hold hd
    · rw [hnode hji] at hj
      exact hold hj

/-- Unlinking a node without entries. -/
theorem unlink_wellFormed (h : t.WellFormed root) {d i p : ι} {k : κ} {x : ν} {isDir : Bool}
    (hk : t.entry d k = some (i, x)) (hleaf : ∀ k', t.entry i k' = none) :
    (t.unlink d k i isDir p).WellFormed root := by
  have hi := h.target d k i x hk
  have hnode : ∀ {j}, j ≠ i → (t.unlink d k i isDir p).node j = t.node j :=
    fun hj => update_of_ne hj _ _
  have hdirs : ∀ {j}, j ≠ i → (t.unlink d k i isDir p).dir j = t.dir j :=
    fun hj => update_of_ne hj _ _
  have hpar : ∀ {j}, j ≠ i → (t.unlink d k i isDir p).parent j = t.parent j :=
    fun hj => update_of_ne hj _ _
  have hdead : (t.unlink d k i isDir p).node i = false := update_self ..
  have hroot : root ≠ i := hi.2.1.symm
  -- An entry afterwards is an old one, of another owner and to another node.
  have hold : ∀ {d' k' j y}, (t.unlink d k i isDir p).entry d' k' = some (j, y) →
      t.entry d' k' = some (j, y) ∧ ¬ (d' = d ∧ k' = k) := by
    intro d' k' j y he
    rcases put_eq_some he with ⟨-, -, he⟩ | ⟨hne, he⟩
    · exact nomatch he
    · exact ⟨he, hne⟩
  have howner : ∀ {d' k' j y}, t.entry d' k' = some (j, y) → d' ≠ i := by
    intro d' k' j y he hd'
    rw [hd', hleaf] at he
    exact nomatch he
  have htarget : ∀ {d' k' j y}, t.entry d' k' = some (j, y) → ¬ (d' = d ∧ k' = k) → j ≠ i := by
    intro d' k' j y he hne hj
    rw [hj] at he
    exact hne (h.unique hk he)
  refine ⟨?_, ?_, ?_, ?_, ?_, ?_, ?_, ?_⟩
  · rw [hnode hroot]
    exact h.root_node
  · rw [hdirs hroot]
    exact h.root_dir
  · intro d' k' j y he
    have he := (hold he).1
    rw [hnode (howner he), hdirs (howner he)]
    exact h.owner d' k' j y he
  · intro d' k' j y he
    rcases hold he with ⟨he, hne⟩
    rw [hnode (htarget he hne), hpar (htarget he hne)]
    exact h.target d' k' j y he
  · intro d' k₁ k₂ j y z h₁ h₂
    exact h.once d' k₁ k₂ j y z (hold h₁).1 (hold h₂).1
  · intro d' k₁ k₂ j j' y h₁ h₂
    exact h.named d' k₁ k₂ j j' y (hold h₁).1 (hold h₂).1
  · intro j hj hjr
    have hji : j ≠ i := by
      rintro rfl
      rw [hdead] at hj
      exact absurd hj (by decide)
    rw [hnode hji] at hj
    rw [hpar hji]
    rcases h.linked j hj hjr with ⟨k', y, he⟩
    refine ⟨k', y, (put_other ?_).trans he⟩
    rintro ⟨hd', hk'⟩
    rw [hd', hk', hk] at he
    exact hji (Prod.mk.inj (Option.some.inj he)).1.symm
  · intro j hj
    have hji : j ≠ i := by
      rintro rfl
      rw [hdead] at hj
      exact absurd hj (by decide)
    rw [hnode hji] at hj
    -- The climbs of the others never went through the leaf.
    refine climbs_mono (climbs_congr (h.climbs_leaf hi.2.1 hleaf hj hji) (fun a ha => hpar ha.2))
      (fun a ha => ?_)
    rw [hnode ha.2]
    exact ha.1

theorem rename_wellFormed (h : t.WellFormed root) {d : ι} {k : κ} {x : ν}
    (hx : ∀ k' j, t.entry d k' ≠ some (j, x)) : (t.rename d k x).WellFormed root := by
  -- Every entry leads where it did, under some name.
  have hold : ∀ {d' k' j y}, (t.rename d k x).entry d' k' = some (j, y) →
      ∃ z, t.entry d' k' = some (j, z) ∧ (z = y ∨ (d' = d ∧ k' = k ∧ y = x)) := by
    intro d' k' j y he
    rcases put_eq_some he with ⟨hd', hk', he⟩ | ⟨-, he⟩
    · rcases Option.map_eq_some_iff.mp he with ⟨⟨j', z⟩, hz, heq⟩
      rcases Prod.mk.inj heq with ⟨hj, hy⟩
      rw [hd', hk', hz, ← hj]
      exact ⟨z, rfl, .inr ⟨rfl, rfl, hy.symm⟩⟩
    · exact ⟨y, he, .inl rfl⟩
  have hnew : ∀ {d' k' j z}, t.entry d' k' = some (j, z) →
      ∃ y, (t.rename d k x).entry d' k' = some (j, y) := by
    intro d' k' j z he
    by_cases hc : d' = d ∧ k' = k
    · rw [hc.1, hc.2] at he ⊢
      refine ⟨x, (put_self _ _ _ _).trans ?_⟩
      rw [he, Option.map_some]
    · exact ⟨z, (put_other hc).trans he⟩
  refine ⟨h.root_node, h.root_dir, ?_, ?_, ?_, ?_, ?_, h.rooted⟩
  · intro d' k' j y he
    rcases hold he with ⟨z, hz, -⟩
    exact h.owner d' k' j z hz
  · intro d' k' j y he
    rcases hold he with ⟨z, hz, -⟩
    exact h.target d' k' j z hz
  · intro d' k₁ k₂ j y₁ y₂ h₁ h₂
    rcases hold h₁ with ⟨z₁, hz₁, -⟩
    rcases hold h₂ with ⟨z₂, hz₂, -⟩
    exact h.once d' k₁ k₂ j z₁ z₂ hz₁ hz₂
  · intro d' k₁ k₂ j j' y h₁ h₂
    rcases hold h₁ with ⟨z₁, hz₁, rfl | ⟨hd₁, hk₁, hy₁⟩⟩
    · rcases hold h₂ with ⟨z₂, hz₂, rfl | ⟨hd₂, hk₂, hy₂⟩⟩
      · exact h.named d' k₁ k₂ j j' z₂ hz₁ hz₂
      · rw [hd₂, hy₂] at hz₁
        exact absurd hz₁ (hx _ _)
    · rcases hold h₂ with ⟨z₂, hz₂, rfl | ⟨-, hk₂, -⟩⟩
      · rw [hd₁, hy₁] at hz₂
        exact absurd hz₂ (hx _ _)
      · rw [hk₁, hk₂]
  · intro j hj hjr
    rcases h.linked j hj hjr with ⟨k', z, he⟩
    exact ⟨k', hnew he⟩

/-- Moving a node to a directory that is not below it. -/
theorem move_wellFormed (h : t.WellFormed root) {d d' i : ι} {x y : ν}
    (hk : t.entry d k = some (i, x)) (hd' : t.node d' = true) (hdir : t.dir d' = true)
    (hk' : t.entry d' k' = none) (hy : ∀ k'' j, t.entry d' k'' ≠ some (j, y))
    (hclear : Climbs t.parent root (fun j => t.node j = true ∧ j ≠ i) d') :
    (t.move d k d' k' i y).WellFormed root := by
  have hi := h.target d k i x hk
  have hpself : (t.move d k d' k' i y).parent i = d' := update_self ..
  have hpar : ∀ {j}, j ≠ i → (t.move d k d' k' i y).parent j = t.parent j :=
    fun hj => update_of_ne hj _ _
  -- An entry afterwards is the new one or an old one of another node.
  have hold : ∀ {a b j z}, (t.move d k d' k' i y).entry a b = some (j, z) →
      (a = d' ∧ b = k' ∧ j = i ∧ z = y) ∨ (t.entry a b = some (j, z) ∧ j ≠ i) := by
    intro a b j z he
    rcases put_eq_some he with ⟨ha, hb, he⟩ | ⟨-, he⟩
    · obtain ⟨hj, hz⟩ := Prod.mk.inj (Option.some.inj he)
      exact .inl ⟨ha, hb, hj.symm, hz.symm⟩
    · rcases put_eq_some he with ⟨-, -, he⟩ | ⟨hne, he⟩
      · exact nomatch he
      · refine .inr ⟨he, fun hj => hne ?_⟩
        rw [hj] at he
        exact h.unique hk he
  refine ⟨h.root_node, h.root_dir, ?_, ?_, ?_, ?_, ?_, ?_⟩
  · intro a b j z he
    rcases hold he with ⟨ha, -, -, -⟩ | ⟨he, -⟩
    · rw [ha]
      exact ⟨hd', hdir⟩
    · exact h.owner a b j z he
  · intro a b j z he
    rcases hold he with ⟨ha, -, hj, -⟩ | ⟨he, hj⟩
    · rw [hj, ha]
      exact ⟨hi.1, hi.2.1, hpself⟩
    · rw [hpar hj]
      exact h.target a b j z he
  · intro a b₁ b₂ j z₁ z₂ h₁ h₂
    rcases hold h₁ with ⟨-, hb₁, hj₁, -⟩ | ⟨he₁, hj₁⟩
    · rcases hold h₂ with ⟨-, hb₂, -, -⟩ | ⟨-, hj₂⟩
      · rw [hb₁, hb₂]
      · exact absurd hj₁ hj₂
    · rcases hold h₂ with ⟨-, -, hj₂, -⟩ | ⟨he₂, -⟩
      · exact absurd hj₂ hj₁
      · exact h.once a b₁ b₂ j z₁ z₂ he₁ he₂
  · intro a b₁ b₂ j j' z h₁ h₂
    rcases hold h₁ with ⟨ha₁, hb₁, -, hz₁⟩ | ⟨he₁, -⟩
    · rcases hold h₂ with ⟨-, hb₂, -, -⟩ | ⟨he₂, -⟩
      · rw [hb₁, hb₂]
      · rw [ha₁, hz₁] at he₂
        exact absurd he₂ (hy _ _)
    · rcases hold h₂ with ⟨ha₂, -, -, hz₂⟩ | ⟨he₂, -⟩
      · rw [ha₂, hz₂] at he₁
        exact absurd he₁ (hy _ _)
      · exact h.named a b₁ b₂ j j' z he₁ he₂
  · intro j hj hjr
    by_cases hji : j = i
    · rw [hji, hpself]
      exact ⟨k', y, put_self ..⟩
    · rw [hpar hji]
      rcases h.linked j hj hjr with ⟨b, z, he⟩
      -- Neither write is to this entry: one was free, the other was the moved node's.
      refine ⟨b, z, (put_other ?_).trans ((put_other ?_).trans he)⟩
      · rintro ⟨ha, hb⟩
        rw [ha, hb, hk'] at he
        exact nomatch he
      · rintro ⟨ha, hb⟩
        rw [ha, hb, hk] at he
        exact hji (Prod.mk.inj (Option.some.inj he)).1.symm
  · intro j hj
    refine climbs_reparent (h.rooted j hj) hi.1 (fun a ha => hpar ha) ?_
    rw [hpself]
    exact hclear

end Tree

end Norx
