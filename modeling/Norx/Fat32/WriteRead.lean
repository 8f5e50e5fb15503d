import Norx.Fat32.Chain

/-!
# Reading What Was Written

A write of a file on a disk that keeps what is written, and a read of the same path
after it. The read searches the same directories, on a disk that has changed: the
sectors of the file have, and so has the size field of its entry. If no directory on
the path has a sector of the file, the search cannot tell. It reads the size field
of the entry it has found only, and of the entries it goes past at most the first 28
bytes, unless they are parts of a long name; and the entry of a file is not.

So the two searches are compared side by side, on disks that are alike on the
sectors the directories have. The loops over the content are those of the chain.

## Theorems

* `writeFile_spec`: What a write does.
* `write_read`: The result.
-/

namespace Norx

namespace Fat32

open Fallible List

/-! ### Entries -/

/-- The entries differ in the size field at most, and not at all if they are parts of a
    long name. -/
def SameEntry (entry entry' : List UInt8) : Prop :=
  entry'.take 28 = entry.take 28 ∧ (byteAt entry 11 = 0x0f → entry' = entry)

/-- A search cannot tell the sectors apart. -/
def Alike (data data' : Sector) : Prop := ∀ slot, SameEntry (data.entry slot) (data'.entry slot)

theorem alike_refl (data : Sector) : Alike data data := fun _ => ⟨rfl, fun _ => rfl⟩

variable {i : Nat}

theorem byteAt_take (entry : List UInt8) (hi : i < 28) :
    byteAt (entry.take 28) i = byteAt entry i := by
  unfold byteAt
  rw [getD_eq_getElem?_getD, getD_eq_getElem?_getD, List.getElem?_take_of_lt hi]

theorem leU16_take (entry : List UInt8) (hi : i + 2 ≤ 28) :
    leU16 (entry.take 28) i = leU16 entry i := by
  unfold leU16
  rw [drop_take, take_take, Nat.min_eq_left (by omega)]

theorem shortNameMatches_take (entry : List UInt8) (target : Name) :
    shortNameMatches (entry.take 28) target = shortNameMatches entry target := by
  unfold shortNameMatches
  rw [take_take, drop_take, take_take]
  rfl

variable {entry' : List UInt8}

section Entries

variable {entry : List UInt8} (h : SameEntry entry entry')

include h

theorem SameEntry.byteAt_eq (hi : i < 28) : byteAt entry' i = byteAt entry i := by
  rw [← byteAt_take entry' hi, h.1, byteAt_take entry hi]

theorem SameEntry.leU16_eq (hi : i + 2 ≤ 28) : leU16 entry' i = leU16 entry i := by
  rw [← leU16_take entry' hi, h.1, leU16_take entry hi]

theorem SameEntry.directory :
    (DirectoryEntry.decode entry').directory = (DirectoryEntry.decode entry).directory := by
  unfold DirectoryEntry.decode
  rw [h.byteAt_eq (by decide)]

theorem SameEntry.cluster :
    (DirectoryEntry.decode entry').cluster = (DirectoryEntry.decode entry).cluster := by
  unfold DirectoryEntry.decode
  rw [h.leU16_eq (by decide), h.leU16_eq (by decide)]

theorem SameEntry.judge (target : Name) (name : LongName) :
    judge target name entry' = judge target name entry := by
  have hshort : shortNameMatches entry' target = shortNameMatches entry target := by
    rw [← shortNameMatches_take entry', h.1, shortNameMatches_take]
  have hchecksum : entry'.take 11 = entry.take 11 := by
    have hcut := congrArg (List.take 11) h.1
    rwa [take_take, take_take] at hcut
  unfold Fat32.judge
  rw [h.byteAt_eq (show 0 < 28 by decide), h.byteAt_eq (show 11 < 28 by decide), hshort, hchecksum]
  by_cases hlong : byteAt entry 11 = 0x0f
  · rw [h.2 hlong]
  · rw [if_neg hlong, if_neg hlong]

end Entries

/-! ### The size field -/

section Field

variable (data : Sector) (slot : Fin 16)

theorem entry_getElem? (i : Nat) :
    (data.entry slot)[i]? = if i < 32 then data.bytes[32 * slot.val + i]? else none := by
  unfold Sector.entry
  rw [List.getElem?_take, List.getElem?_drop]

theorem setSize_bytes (size : Nat) :
    (data.setSize slot size).bytes = data.bytes.take (32 * slot.val + 28) ++
      (leBytes 4 size ++ data.bytes.drop (32 * slot.val + 32)) :=
  append_assoc _ _ _

theorem length_front : (data.bytes.take (32 * slot.val + 28)).length = 32 * slot.val + 28 := by
  rw [length_take, data.size, bytesPerSector]
  omega

/-- Outside of the field nothing changes. -/
theorem setSize_getElem? (size : Nat) (hi : i < 32 * slot.val + 28 ∨ 32 * slot.val + 32 ≤ i) :
    (data.setSize slot size).bytes[i]? = data.bytes[i]? := by
  have hfront := length_front data slot
  have hfield := leBytes_length 4 size
  rw [setSize_bytes]
  rcases hi with hi | hi
  · rw [List.getElem?_append_left (by omega), List.getElem?_take_of_lt hi]
  · rw [List.getElem?_append_right (by omega), List.getElem?_append_right (by omega),
      List.getElem?_drop, hfront, hfield]
    congr 1
    omega

end Field

theorem alike_setSize {data : Sector} {slot : Fin 16} (size : Nat)
    (h : byteAt (data.entry slot) 11 ≠ 0x0f) : Alike data (data.setSize slot size) := by
  intro slot'
  by_cases hslot : slot' = slot
  · subst hslot
    refine ⟨ext_getElem? fun i => ?_, fun hlong => absurd hlong h⟩
    rw [List.getElem?_take, List.getElem?_take]
    split
    · rw [entry_getElem?, entry_getElem?, setSize_getElem? _ _ _ (by omega)]
    · rfl
  · have heq : (data.setSize slot size).entry slot' = data.entry slot' := by
      refine ext_getElem? fun i => ?_
      rw [entry_getElem?, entry_getElem?]
      split
      · rw [setSize_getElem? _ _ _ (by omega)]
      · rfl
    rw [heq]
    exact ⟨rfl, fun _ => rfl⟩

theorem size_setSize (data : Sector) (slot : Fin 16) {size : Nat} (h : size < 2 ^ 32) :
    (DirectoryEntry.decode ((data.setSize slot size).entry slot)).size = size := by
  have hfront := length_front data slot
  have hfield : (((data.setSize slot size).entry slot).drop 28).take 4 = leBytes 4 size := by
    unfold Sector.entry
    rw [drop_take, take_take, drop_drop, setSize_bytes,
      drop_append_of_le_length (by omega), drop_of_length_le (by omega), nil_append]
    exact take_left' (leBytes_length 4 size)
  change leNat ((((data.setSize slot size).entry slot).drop 28).take 4) = size
  rw [hfield, leNat_leBytes]
  exact Nat.mod_eq_of_lt h

/-! ### Searching twice -/

section Search

variable {present : Nat → Bool} {m : Mount} {d d' : Disk} {s t : Machine Disk}
  {E : Stop Error → Machine Disk → Stop Error → Machine Disk → Prop}

theorem both_arith {α : Type} {x : Checked Error α} {Q : α → Machine Disk → α → Machine Disk → Prop}
    (hok : ∀ a, x = .ok a → Q a s a t) (herror : ∀ e, x = .error e → E e s e t) :
    Both (arith x) (arith x) Q E s t := by
  cases x with
  | error e => exact herror e rfl
  | ok a => exact hok a rfl

theorem both_readStore {sector : Nat} {Q : Sector → Machine Disk → Sector → Machine Disk → Prop}
    (hok : Q (s.disk sector) (s.asked (.read sector)) (t.disk sector) (t.asked (.read sector)))
    (herror : E (.error .io) (s.asked (.read sector)) (.error .io) (t.asked (.read sector))) :
    Both (readSector (store present) sector) (readSector (store present) sector) Q E s t := by
  unfold Both readSector store
  dsimp only
  cases present sector with
  | true => exact hok
  | false => exact herror

/-- What two searches of a directory have found. -/
structure Found (present : Nat → Bool) (m : Mount) (d d' : Disk) (directory : Nat)
    (location location' : EntryLocation) : Prop where
  sector : location'.sector = location.sector
  slot : location'.slot = location.slot
  chain : InChain present m d directory location.sector
  listed : Listed ((d location.sector).entry location.slot)
  entry : location.entry = .decode ((d location.sector).entry location.slot)
  entry' : location'.entry = .decode ((d' location.sector).entry location.slot)

section Alike

variable (hfat : ∀ n < m.firstDataSector, d' n = d n) {directory : Nat}
  (halike : ∀ n, InChain present m d directory n → Alike (d n) (d' n))

/-- The two disks are still what they were. -/
def Pair (d d' : Disk) (s t : Machine Disk) : Prop := s.disk = d ∧ t.disk = d'

include hfat in
theorem next_both (hm : Sound m) (c : Nat) (hst : Pair d d' s t) :
    Both (nextCluster (store present) m c) (nextCluster (store present) m c)
      (fun next s' next' t' => next' = next ∧ nextOf present m d c = .ok next ∧ Pair d d' s' t')
      (fun _ _ _ _ => True) s t := by
  have hs := nextCluster_spec present m c s
  have ht := nextCluster_spec present m c t
  rw [hst.1] at hs
  rw [hst.2, nextOf_congr present hm hfat] at ht
  unfold wp at hs ht
  unfold Both
  rcases hx : nextCluster (store present) m c s with ⟨e | next, s'⟩ <;>
    rcases hy : nextCluster (store present) m c t with ⟨e' | next', t'⟩ <;>
    rw [hx] at hs <;> rw [hy] at ht
  · trivial
  · exact nomatch hs.1.symm.trans ht.1
  · exact nomatch hs.1.symm.trans ht.1
  · exact ⟨Except.ok.inj (ht.1.symm.trans hs.1), hs.1, hs.2.1.trans hst.1, ht.2.1.trans hst.2⟩

include halike

theorem searchSector_both {c k : Nat}
    (hc : Relation.ReflTransGen (Next present m d) directory c) (hk : k < m.sectorsPerCluster)
    (target : Name) (name : LongName) (hst : Pair d d' s t) :
    Both (searchSector (store present) m target c name k)
      (searchSector (store present) m target c name k)
      (fun u s' u' t' => Turn.Alike
        (fun a a' => Pair d d' s' t' ∧ Found present m d d' directory a a')
        (fun name' name'' => name'' = name' ∧ Pair d d' s' t') u u')
      (fun _ _ _ _ => True) s t := by
  apply both_bind
  apply both_arith _ (fun _ _ => trivial)
  intro sector hsector
  have hchain : InChain present m d directory sector := ⟨c, k, hc, hk, hsector⟩
  apply both_bind
  apply both_readStore _ trivial
  rw [hst.1, hst.2]
  have hasked : Pair d d' (s.asked (.read sector)) (t.asked (.read sector)) := hst
  apply both_scan (fun name s name' t => name' = name ∧ Pair d d' s t) _ _ ⟨rfl, hasked⟩
  rintro slot _ _ s name t ⟨rfl, hst⟩
  have hsame := halike sector hchain slot
  unfold searchEntry
  rw [hsame.judge]
  cases hjudge : judge target name ((d sector).entry slot) with
  | endOfDirectory => exact trivial
  | found => exact ⟨hst, rfl, rfl, hchain, judge_found hjudge, rfl, rfl⟩
  | skip name' => exact ⟨rfl, hst⟩

include hfat

theorem find_both (hm : Sound m) (target : Name) (hst : Pair d d' s t) :
    Both (findEntryLocation (store present) m directory target)
      (findEntryLocation (store present) m directory target)
      (fun a s' a' t' => Pair d d' s' t' ∧ Found present m d d' directory a a')
      (fun _ _ _ _ => True) s t := by
  -- Both searches are at the same cluster, which the directory leads to.
  apply both_turns (fun at_ s at_' t => at_' = at_ ∧ Pair d d' s t ∧
    Relation.ReflTransGen (Next present m d) directory at_.1) (fun _ _ _ _ _ => trivial) _ _ _ _ _ _
    ⟨rfl, hst, .refl⟩
  rintro ⟨c, name⟩ s _ t ⟨rfl, hst, hc⟩
  refine both_next (both_scan (fun name s name' t => name' = name ∧ Pair d d' s t) (clusterOffsets m)
    ?_ ⟨rfl, hst⟩) (fun _ _ _ _ hdone => hdone) ?_
  · rintro k hk _ s name t ⟨rfl, hst⟩
    exact searchSector_both halike hc (mem_range.mp hk) target _ hst
  · rintro _ s' name t' ⟨rfl, hst'⟩
    apply both_bind
    apply both_mono (next_both hfat hm c hst') _ (fun _ _ _ _ h => h)
    rintro _ s'' next t'' ⟨rfl, hnext, hst''⟩
    cases next with
    | none => exact trivial
    | some c' => exact ⟨rfl, hst'', hc.tail hnext⟩

end Alike

end Search

/-! ### Paths -/

/-- The search of a directory on this disk finds the entry. -/
def Finds (present : Nat → Bool) (m : Mount) (d : Disk) (directory : Nat) (name : Name)
    (location : EntryLocation) : Prop :=
  ∃ s s', s.disk = d ∧
    findEntryLocation (store present) m directory name s = (.ok location, s')

/-- The components lead from a directory to an entry, through directories of which this
    is the first. -/
inductive Resolves (present : Nat → Bool) (m : Mount) (d : Disk) :
    Nat → List Name → List Nat → EntryLocation → Prop
  | last {directory : Nat} {name : Name} {location : EntryLocation}
      (h : Finds present m d directory name location) :
      Resolves present m d directory [name] [directory] location
  | through {directory : Nat} {name : Name} {location target : EntryLocation} {rest : List Name}
      {directories : List Nat} (h : Finds present m d directory name location)
      (hdirectory : location.entry.directory = true)
      (hrest : Resolves present m d location.entry.cluster rest directories target) :
      Resolves present m d directory (name :: rest) (directory :: directories) target

variable {directory : Nat} {t : Machine Disk} {directories : List Nat}

section Paths

variable {present : Nat → Bool} {m : Mount} (hm : Sound m) {d d' : Disk}

theorem quiet_find (directory : Nat) (target : Name) :
    Quiet (findEntryLocation (store present) m directory target) := by
  refine quiet_turns (fun at_ => quiet_bind (quiet_scan (fun name k => ?_) _ _) fun t => ?_) _ _
  · refine quiet_bind (quiet_lift _) fun sector => quiet_bind (quiet_read sector) fun data => ?_
    refine quiet_scan (fun name slot => ?_) _ _
    unfold searchEntry
    split
    · exact quiet_err _
    · exact quiet_pure _
    · exact quiet_pure _
  · cases t with
    | done location => exact quiet_pure _
    | next name =>
      refine quiet_bind (quiet_next present m at_.1) fun next => ?_
      cases next with
      | none => exact quiet_err _
      | some c => exact quiet_pure _

theorem find_spec (directory : Nat) (target : Name) (s : Machine Disk) :
    wp (findEntryLocation (store present) m directory target)
      (fun location s' => Same s s' ∧ Finds present m s.disk directory target location)
      (fun _ s' => Same s s') s := by
  apply wp_mono (wp_run (quiet_find directory target s))
  · rintro location s' ⟨hrun, hsame⟩
    exact ⟨hsame, s, s', rfl, hrun⟩
  · rintro e s' ⟨-, hsame⟩
    exact hsame

theorem walk_spec (components : List Name) (directory : Nat) (s : Machine Disk) :
    wp (walk (store present) m directory components)
      (fun at_ s' => Same s s' ∧ ∀ location, Finds present m s.disk at_.1 at_.2 location →
        ∃ directories, Resolves present m s.disk directory components directories location)
      (fun _ s' => Same s s') s := by
  induction components generalizing directory s with
  | nil => exact Same.refl s
  | cons name rest ih =>
    cases rest with
    | nil => exact ⟨Same.refl s, fun location h => ⟨_, .last h⟩⟩
    | cons name' rest =>
      rw [walk]
      · rw [wp_bind, findEntry, wp_bind]
        apply wp_post (find_spec directory name s)
        rintro location s' ⟨hsame, hfinds⟩
        rw [wp_pure, wp_ite]
        refine ⟨fun _ => hsame, fun hdirectory => ?_⟩
        have hrest := ih location.entry.cluster s'
        rw [hsame.1] at hrest
        apply wp_mono hrest
        · rintro at_ s'' ⟨hsame', hresolves⟩
          refine ⟨hsame.trans hsame', fun target htarget => ?_⟩
          rcases hresolves target htarget with ⟨directories, h⟩
          exact ⟨directory :: directories,
            .through hfinds (Bool.eq_true_of_not_eq_false hdirectory) h⟩
        · exact fun _ _ hsame' => hsame.trans hsame'
      · exact nofun

include hm

variable {location : EntryLocation}

theorem find_again (hfat : ∀ n < m.firstDataSector, d' n = d n) {name : Name}
    (h : Finds present m d directory name location)
    (halike : ∀ n, InChain present m d directory n → Alike (d n) (d' n)) (ht : t.disk = d') :
    wp (findEntryLocation (store present) m directory name)
      (fun location' t' => t'.disk = d' ∧ Found present m d d' directory location location')
      (fun _ _ => False) t := by
  rcases h with ⟨s, s', hs, hrun⟩
  rcases both_ok (find_both hfat halike hm name ⟨hs, ht⟩) hrun with
    ⟨location', t', hrun', hpair, hfound⟩
  unfold wp
  rw [hrun']
  exact ⟨hpair.2, hfound⟩

theorem walk_again (hfat : ∀ n < m.firstDataSector, d' n = d n) {components : List Name}
    (h : Resolves present m d directory components directories location)
    (halike : ∀ x ∈ directories, ∀ n, InChain present m d x n → Alike (d n) (d' n))
    (ht : t.disk = d') :
    wp (walk (store present) m directory components)
      (fun at_ t' => t'.disk = d' ∧ at_.1 ∈ directories ∧ Finds present m d at_.1 at_.2 location)
      (fun _ _ => False) t := by
  induction h generalizing t with
  | last h => exact ⟨ht, mem_singleton_self _, h⟩
  | @through directory name location target rest directories h hdirectory hrest ih =>
    have hhead := halike directory mem_cons_self
    rw [walk]
    · rw [wp_bind, findEntry, wp_bind]
      apply wp_post (find_again hm hfat h hhead ht)
      rintro location' t' ⟨ht', hfound⟩
      have hsame := hhead _ hfound.chain location.slot
      have hdirectory' : location'.entry.directory = true := by
        rw [hfound.entry', hsame.directory, ← hfound.entry, hdirectory]
      have hcluster : location'.entry.cluster = location.entry.cluster := by
        rw [hfound.entry', hsame.cluster, ← hfound.entry]
      rw [wp_pure, wp_ite]
      refine ⟨fun hno => (nomatch hdirectory'.symm.trans hno), fun _ => ?_⟩
      rw [hcluster]
      apply wp_post (ih (fun x hx => halike x (mem_cons_of_mem _ hx)) ht')
      rintro at_ t'' ⟨ht'', hmem, hfinds⟩
      exact ⟨ht'', mem_cons_of_mem _ hmem, hfinds⟩
    · intro hnil
      rw [hnil] at hrest
      exact nomatch hrest

end Paths

/-! ### Writing a file -/

/-- No directory on the path has a sector of the file. -/
def Apart (present : Nat → Bool) (m : Mount) (d : Disk) (path : Name) : Prop :=
  ∀ names directories location, components path = .ok names →
    Resolves present m d m.rootCluster names directories location →
    ∀ x ∈ directories, ∀ n, InChain present m d x n →
      ¬ InChain present m d location.entry.cluster n

/-- What a write that returns has done. -/
structure Overwritten (present : Nat → Bool) (m : Mount) (d : Disk) (path : Name)
    (input : List UInt8) (location : EntryLocation) (d' : Disk) : Prop where
  resolves : ∃ names directories, components path = .ok names ∧
    Resolves present m d m.rootCluster names directories location
  file : location.entry.directory = false
  chain : ∃ cs content, IsChain present m d location.entry.cluster cs ∧
    cs.length < m.clusterCount ∧
    Written present d (chainSectors m (location.entry.cluster :: cs)) input content ∧
    d' = Function.update content location.sector
      ((content location.sector).setSize location.slot input.length)

section Files

variable {present : Nat → Bool} {m : Mount} (hm : Sound m)

theorem quiet_capacity (start : Nat) : Quiet (chainCapacity (store present) m start) := by
  refine quiet_bind (quiet_lift _) fun bytes => quiet_turns (fun at_ => ?_) _ _
  refine quiet_bind (quiet_lift _) fun _ => quiet_bind (quiet_lift _) fun capacity => ?_
  refine quiet_bind (quiet_next present m at_.1) fun next => ?_
  cases next with
  | none | some => exact quiet_pure _

include hm

/-- A write either has not written yet when it fails, or fails with one of two errors. -/
theorem writeFile_spec (path : Name) {input : List UInt8} (hinput : input.length < 2 ^ 64)
    (s : Machine Disk) :
    wp (writeFile (store present) m path input)
      (fun _ s' => ∃ location, Overwritten present m s.disk path input location s'.disk)
      (fun e s' => Same s s' ∨ e = .error .io ∨ e = .error .badClusterChain) s := by
  unfold writeFile
  rw [wp_ite]
  refine ⟨fun _ => .inl (Same.refl s), fun hwritable => ?_⟩
  have hwritable := Bool.eq_true_of_not_eq_false hwritable
  rw [wp_bind, wp_lift]
  refine ⟨fun names hnames => ?_, fun _ _ => .inl (Same.refl s)⟩
  have hnames : components path = .ok names := by
    cases hc : components path with
    | error e => rw [hc] at hnames; exact nomatch hnames
    | ok names' => rw [hc] at hnames; exact congrArg _ (Except.ok.inj hnames)
  rw [wp_bind]
  apply wp_mono (walk_spec names m.rootCluster s) _ (fun _ _ h => .inl h)
  rintro ⟨directory, last⟩ s₁ ⟨hsame₁, hresolves⟩
  rw [wp_bind]
  apply wp_mono (find_spec directory last s₁) _ (fun _ _ h => .inl (hsame₁.trans h))
  rintro location s₂ ⟨hsame₂, hfinds⟩
  rw [hsame₁.1] at hfinds
  rcases hresolves location hfinds with ⟨directories, hresolves⟩
  have hsame₂ := hsame₁.trans hsame₂
  rw [wp_ite]
  refine ⟨fun _ => .inl hsame₂, fun hfile => ?_⟩
  rw [wp_bind]
  apply wp_mono (wp_and (chainCapacity_spec hm location.entry.cluster s₂)
    (quiet_capacity location.entry.cluster s₂)) _ (fun _ _ h => .inl (hsame₂.trans h.2))
  rintro capacity s₃ ⟨⟨cs, hchain, hlen⟩, hsame₃⟩
  have hsame₃ := hsame₂.trans hsame₃
  rw [wp_ite]
  refine ⟨fun _ => .inl hsame₃, fun _ => ?_⟩
  rw [hsame₂.1, ← hsame₃.1] at hchain
  rw [wp_bind]
  apply wp_mono (writeChain_spec hm hwritable hchain hinput) _ (fun _ _ h => .inr h)
  rintro _ s₄ hwritten
  rw [hsame₃.1] at hwritten hchain
  rw [wp_bind, wp_readStore]
  refine ⟨fun _ => ?_, fun _ => .inr (.inl rfl)⟩
  rw [wp_bind, wp_writeStore]
  refine ⟨fun _ => ?_, fun _ => .inr (.inl rfl)⟩
  exact ⟨location, ⟨names, directories, hnames, hresolves⟩, Bool.eq_false_of_not_eq_true hfile,
    cs, s₄.disk, hchain, hlen, hwritten, rfl⟩

omit hm

theorem dataSector_ge {c k n : Nat} (h : dataSector m c k = .ok n) : m.firstDataSector ≤ n := by
  rcases except_bind_ok h with ⟨first, hfirst, h⟩
  rcases except_bind_ok hfirst with ⟨index, -, hfirst⟩
  rcases except_bind_ok hfirst with ⟨offset, -, hfirst⟩
  rw [Checked.add] at h hfirst
  split at h
  · split at hfirst
    · obtain rfl := Except.ok.inj hfirst
      obtain rfl := Except.ok.inj h
      omega
    · cases hfirst
  · cases h

variable {d d' : Disk} {path : Name} {input : List UInt8} {location : EntryLocation}

theorem Resolves.finds {names : List Name}
    (h : Resolves present m d directory names directories location) :
    ∃ x ∈ directories, ∃ name, Finds present m d x name location := by
  induction h with
  | last h => exact ⟨_, mem_singleton_self _, _, h⟩
  | through _ _ _ ih =>
    rcases ih with ⟨x, hx, name, hfinds⟩
    exact ⟨x, mem_cons_of_mem _ hx, name, hfinds⟩

include hm

/-- A search side by side with itself. -/
theorem Finds.found {name : Name} (h : Finds present m d directory name location) :
    Found present m d d directory location location := by
  rcases h with ⟨s, s', hs, hrun⟩
  rcases both_ok (find_both (fun _ _ => rfl) (fun n _ => alike_refl (d n)) hm name ⟨hs, hs⟩) hrun
    with ⟨location', t', hrun', -, hfound⟩
  obtain rfl : location = location' :=
    Except.ok.inj (congrArg Prod.fst (hrun.symm.trans hrun'))
  exact hfound

section

variable (h : Overwritten present m d path input location d')

include h

section Apart

variable (hapart : Apart present m d path)

include hapart

/-- The entry of the file is in a sector that the file does not have. -/
theorem Overwritten.entry :
    Listed ((d location.sector).entry location.slot) ∧
      location.entry = .decode ((d location.sector).entry location.slot) ∧
      m.firstDataSector ≤ location.sector ∧
      ¬ InChain present m d location.entry.cluster location.sector := by
  rcases h.resolves with ⟨names, directories, hnames, hresolves⟩
  rcases hresolves.finds with ⟨x, hx, name, hfinds⟩
  have hfound := hfinds.found hm
  rcases hfound.chain with ⟨c, k, -, -, hsector⟩
  exact ⟨hfound.listed, hfound.entry, dataSector_ge hsector,
    hapart names directories location hnames hresolves x hx _ hfound.chain⟩

/-- Only the sectors of the file change, and the size field. -/
theorem Overwritten.frame :
    (∀ n < m.firstDataSector, d' n = d n) ∧
      (∀ n, ¬ InChain present m d location.entry.cluster n → n ≠ location.sector → d' n = d n) ∧
      d' location.sector = (d location.sector).setSize location.slot input.length := by
  rcases h.entry hm hapart with ⟨-, -, hdata, hsector⟩
  rcases h.chain with ⟨cs, content, hchain, -, hwritten, rfl⟩
  have hother : ∀ n, ¬ InChain present m d location.entry.cluster n → content n = d n :=
    fun n hn => hwritten.eq_of_not_mem fun hmem => hn (hchain.inChain hm hmem)
  refine ⟨fun n hn => ?_, fun n hn hne => ?_, ?_⟩
  · rw [Function.update_of_ne (by omega)]
    exact hwritten.eq_of_not_mem fun hmem => absurd (hchain.data hm hmem) (by omega)
  · rw [Function.update_of_ne hne, hother n hn]
  · rw [Function.update_self, hother _ hsector]

/-- A search does not see what a write has changed outside the file. -/
theorem Overwritten.alike {n : Nat} (hn : ¬ InChain present m d location.entry.cluster n) :
    Alike (d n) (d' n) := by
  rcases h.frame hm hapart with ⟨-, hother, hentry⟩
  by_cases hsector : n = location.sector
  · rw [hsector, hentry]
    exact alike_setSize _ (h.entry hm hapart).1.2.2
  · rw [hother n hn hsector]
    exact alike_refl _

theorem Overwritten.reads (hinput : input.length < 2 ^ 32) {outputLength : Nat}
    (houtput : input.length ≤ outputLength) (ht : t.disk = d') :
    wp (readFile (store present) m path outputLength) (fun output _ => output = input)
      (fun _ _ => False) t := by
  rcases h.frame hm hapart with ⟨hfat, -, hentry⟩
  rcases h.resolves with ⟨names, directories, hnames, hresolves⟩
  have halike : ∀ x ∈ directories, ∀ n, InChain present m d x n → Alike (d n) (d' n) :=
    fun x hx n hn => h.alike hm hapart (hapart names directories location hnames hresolves x hx n hn)
  unfold readFile
  rw [wp_bind, wp_lift, hnames]
  refine ⟨fun names' hnames' => ?_, nofun⟩
  obtain rfl := Except.ok.inj hnames'
  rw [wp_bind]
  apply wp_post (walk_again hm hfat hresolves halike ht)
  rintro ⟨directory, last⟩ t₁ ⟨ht₁, hmem, hfinds⟩
  rw [wp_bind, findEntry, wp_bind]
  apply wp_post (find_again hm hfat hfinds (halike _ hmem) ht₁)
  rintro location' t₂ ⟨ht₂, hfound⟩
  have hsame := halike _ hmem _ hfound.chain location.slot
  have hfile : location'.entry.directory = false := by
    rw [hfound.entry', hsame.directory, ← hfound.entry, h.file]
  have hcluster : location'.entry.cluster = location.entry.cluster := by
    rw [hfound.entry', hsame.cluster, ← hfound.entry]
  have hsize : location'.entry.size = input.length := by
    rw [hfound.entry', hentry, size_setSize _ _ hinput]
  rw [wp_pure, wp_ite, hfile, hcluster, hsize]
  refine ⟨nofun, fun _ => ?_⟩
  rcases (h.entry hm hapart) with ⟨-, -, -, hsector⟩
  rcases h.chain with ⟨cs, content, hchain, hlen, hwritten, rfl⟩
  have hnodup := chainSectors_nodup hchain.nodup fun c hc => (hchain.reaches hc).1
  have hkept : ∀ n ∈ chainSectors m (location.entry.cluster :: cs),
      Function.update content location.sector
        ((content location.sector).setSize location.slot input.length) n = content n := by
    intro n hn
    refine Function.update_of_ne ?_ _ _
    rintro rfl
    exact hsector (hchain.inChain hm hn)
  rw [← ht₂] at hkept hfat
  exact readChain_spec hm (hchain.congr hm hfat) hlen (by omega)
    ((hwritten.holds hnodup).congr hkept) houtput

end Apart

end

end Files

/-! ### The result -/

/-- The errors that a write returns before it writes. -/
def early : List Error :=
  [.noSpace, .notFound, .isDirectory, .notDirectory, .invalidPath, .readOnly]

/-- On a disk that keeps what is written to it, and a path no directory of which has a
    sector of the file: a write that returns is read back, and changes the sectors of the
    file and the size field of its entry only; and one that fails early writes nothing. -/
theorem write_read (present : Nat → Bool) (writable : Bool) (s₀ s₁ : Machine Disk) (m : Mount)
    (hopen : openWithWriter (store present) writable s₀ = (.ok m, s₁)) (d : Disk) (path : Name)
    (input : List UInt8) (hinput : input.length < 2 ^ 32) (hapart : Apart present m d path) :
    (∀ length s', writeFile (store present) m path input ⟨d, []⟩ = (.ok length, s') →
      (∀ outputLength log, input.length ≤ outputLength →
        (readFile (store present) m path outputLength ⟨s'.disk, log⟩).1 = .ok input) ∧
      ∃ names directories location, components path = .ok names ∧
        Resolves present m d m.rootCluster names directories location ∧
        (∀ n < m.firstDataSector, s'.disk n = d n) ∧
        (∀ n, ¬ InChain present m d location.entry.cluster n → n ≠ location.sector →
          s'.disk n = d n) ∧
        s'.disk location.sector = (d location.sector).setSize location.slot input.length) ∧
    ∀ e s', writeFile (store present) m path input ⟨d, []⟩ = (.error (.error e), s') →
      e ∈ early → s'.disk = d ∧ ∀ n, .write n ∉ s'.log := by
  have hm := openWithWriter_sound hopen
  have hwrite : wp (writeFile (store present) m path input) _ _ ⟨d, []⟩ :=
    writeFile_spec hm path (by omega) ⟨d, []⟩
  constructor
  · intro length s' hrun
    rcases wp_ok hrun hwrite with ⟨location, hover⟩
    refine ⟨fun outputLength log houtput => ?_, ?_⟩
    · have hread := hover.reads hm hapart hinput houtput (t := ⟨s'.disk, log⟩) rfl
      unfold wp at hread
      rcases hr : readFile (store present) m path outputLength ⟨s'.disk, log⟩ with ⟨e | output, t⟩ <;>
        rw [hr] at hread
      · exact hread.elim
      · rw [hread]
    · rcases hover.resolves with ⟨names, directories, hnames, hresolves⟩
      exact ⟨names, directories, location, hnames, hresolves, hover.frame hm hapart⟩
  · intro e s' hrun he
    rcases wp_error hrun hwrite with hsame | hlate | hlate
    · exact ⟨hsame.1, fun n hn => nomatch hsame.2 n hn⟩
    · obtain rfl := Stop.error.inj hlate
      exact absurd he (by decide)
    · obtain rfl := Stop.error.inj hlate
      exact absurd he (by decide)

/-- A disk that has every sector. -/
def whole : Nat → Bool := fun _ => true

theorem whole_opens : openWithWriter (store whole) true ⟨smallVolume fileRoot, []⟩ =
    (.ok smallMount, ⟨smallVolume fileRoot, [.read 0]⟩) := by
  change (geometry true (Sector.load bootSector).bytes, _) = _
  rw [geometry_small]
  rfl

theorem fileRoot_next : nextOf whole smallMount (smallVolume fileRoot) 2 = .ok none ∧
    nextOf whole smallMount (smallVolume fileRoot) 3 = .ok none := by
  decide +kernel

/-- A cluster that nothing follows has a chain of one sector. -/
theorem inChain_single {d : Disk} {c n : Nat} (hnext : nextOf whole smallMount d c = .ok none)
    (h : InChain whole smallMount d c n) : dataSector smallMount c 0 = .ok n := by
  rcases h with ⟨c', k, hreach, hk, hsector⟩
  obtain rfl : k = 0 := Nat.lt_one_iff.mp hk
  rcases hreach.cases_head with rfl | ⟨c'', hfirst, -⟩
  · exact hsector
  · exact nomatch hnext.symm.trans hfirst

theorem fileRoot_file : ∀ slot : Fin 16, byteAt ((Sector.load fileRoot).entry slot) 0 = 0 ∨
    (DirectoryEntry.decode ((Sector.load fileRoot).entry slot)).cluster = 3 := by
  decide +kernel

theorem fileRoot_apart : Apart whole smallMount (smallVolume fileRoot) [slash, 0x41] := by
  intro names directories location hnames hresolves x hx n hn hfile
  have hm := openWithWriter_sound whole_opens
  obtain rfl : [[0x41]] = names := by
    have hpath : components [slash, 0x41] = .ok [[0x41]] := by decide
    exact Except.ok.inj (hpath.symm.trans hnames)
  cases hresolves with
  | through _ _ hrest => exact nomatch hrest
  | last hfinds =>
    obtain rfl := mem_singleton.mp hx
    have hfound := hfinds.found hm
    have hsector : 1025 = location.sector :=
      Except.ok.inj (inChain_single fileRoot_next.1 hfound.chain)
    have hlisted := hfound.listed.1
    have hentry := hfound.entry
    rw [← hsector] at hlisted hentry
    have hcluster : location.entry.cluster = 3 := by
      rw [hentry]
      exact (fileRoot_file location.slot).resolve_left hlisted
    rw [hcluster] at hfile
    have hn : 1025 = n := Except.ok.inj (inChain_single fileRoot_next.1 hn)
    have hfile : 1026 = n := Except.ok.inj (inChain_single fileRoot_next.2 hfile)
    omega

/-- Overwriting the file of the volume that has one file. -/
theorem write_read_file :
    (writeFile (store whole) smallMount [slash, 0x41] [0x6f] ⟨smallVolume fileRoot, []⟩).1 = .ok 1 ∧
    (readFile (store whole) smallMount [slash, 0x41] 4
      ⟨(writeFile (store whole) smallMount [slash, 0x41] [0x6f]
        ⟨smallVolume fileRoot, []⟩).2.disk, []⟩).1 = .ok [0x6f] := by
  have hwrite : (writeFile (store whole) smallMount [slash, 0x41] [0x6f]
      ⟨smallVolume fileRoot, []⟩).1 = .ok 1 := by
    decide +kernel
  refine ⟨hwrite, ?_⟩
  generalize hrun : writeFile (store whole) smallMount [slash, 0x41] [0x6f]
    ⟨smallVolume fileRoot, []⟩ = run at hwrite ⊢
  obtain ⟨result, s'⟩ := run
  obtain rfl : result = .ok 1 := hwrite
  exact ((write_read whole true _ _ _ whole_opens (smallVolume fileRoot) [slash, 0x41] [0x6f]
    (by decide) fileRoot_apart).1 1 s' hrun).1 4 [] (by decide)

end Fat32

end Norx
