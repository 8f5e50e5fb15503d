import Norx.Fat32.Safety
import Norx.Lib.Blocks

/-!
# Chains of Clusters on a Disk

The three loops over the content of a file, on a disk that keeps what is written to
it. `chain_capacity` comes first in a write and goes to the end of the chain, so
what the other two loops follow is finite and has each cluster once. They go
through its sectors in order and stop when they are done, which can be in the
middle of a cluster, at its end, or at the end of the chain.

Both have the same kind of invariant: what is left to do gives the result. The
table of clusters is before the data area, so writing to a chain does not change
it.

## Main definitions

* `Same`, `Quiet`: Programs that only read.

## Theorems

* `chainCapacity_spec`, `writeChain_spec`, `readChain_spec`: The loops.
-/

namespace Norx

namespace Fat32

open Fallible List

/-! ### The disk -/

/-- What is on a disk. -/
abbrev Disk := Nat → Sector

/-- A reader and a writer of a disk that has some of the sectors. -/
def store (present : Nat → Bool) : Medium Disk :=
  { read := fun sector d => (if present sector = true then some (d sector) else none, d)
    write := fun sector data d =>
      if present sector = true then (true, Function.update d sector data) else (false, d) }

/-- The state after a request that did not change the disk. -/
def Machine.asked {σ : Type} (s : Machine σ) (a : Access) : Machine σ :=
  { s with log := s.log ++ [a] }

/-- The disk is as it was and nothing has been written. -/
def Same (s s' : Machine Disk) : Prop :=
  s'.disk = s.disk ∧ ∀ sector, .write sector ∈ s'.log → .write sector ∈ s.log

theorem Same.refl (s : Machine Disk) : Same s s := ⟨rfl, fun _ h => h⟩

theorem Same.trans {s s' s'' : Machine Disk} (h : Same s s') (h' : Same s' s'') : Same s s'' :=
  ⟨h'.1.trans h.1, fun sector hw => h.2 sector (h'.2 sector hw)⟩

theorem Same.asked (s : Machine Disk) (sector : Nat) : Same s (s.asked (.read sector)) := by
  refine ⟨rfl, fun n hn => ?_⟩
  rcases mem_append.mp hn with hn | hn
  · exact hn
  · exact nomatch mem_singleton.mp hn

section Rules

variable {α β : Type} {Q : α → Machine Disk → Prop} {E : Stop Error → Machine Disk → Prop}
  {s : Machine Disk} {present : Nat → Bool}

theorem wp_arith_ok {x : Checked Error α} {a : α} (hx : x = .ok a) :
    wp (arith x) Q E s ↔ Q a s := by
  subst hx
  rfl

theorem wp_readStore {sector : Nat} {Q : Sector → Machine Disk → Prop} :
    wp (readSector (store present) sector) Q E s ↔
      (present sector = true → Q (s.disk sector) (s.asked (.read sector))) ∧
      (present sector = false → E (.error .io) (s.asked (.read sector))) := by
  unfold wp readSector store
  dsimp only
  cases hp : present sector with
  | true => exact ⟨fun h => ⟨fun _ => h, nofun⟩, fun h => h.1 rfl⟩
  | false => exact ⟨fun h => ⟨nofun, fun _ => h⟩, fun h => h.2 rfl⟩

theorem wp_writeStore {sector : Nat} {data : Sector} {Q : Unit → Machine Disk → Prop} :
    wp (writeSector (store present) sector data) Q E s ↔
      (present sector = true → Q () { disk := Function.update s.disk sector data,
                                      log := s.log ++ [.write sector] }) ∧
      (present sector = false → E (.error .io) (s.asked (.write sector))) := by
  unfold wp writeSector store
  dsimp only
  cases hp : present sector with
  | true => exact ⟨fun h => ⟨fun _ => h, nofun⟩, fun h => h.1 rfl⟩
  | false => exact ⟨fun h => ⟨nofun, fun _ => h⟩, fun h => h.2 rfl⟩

/-! ### Programs that only read -/

def Quiet (x : DiskM Disk α) : Prop := ∀ s, wp x (fun _ => Same s) (fun _ => Same s) s

theorem quiet_pure (a : α) : Quiet (pure a) := fun s => Same.refl s

theorem quiet_err (e : Error) : Quiet (err e : DiskM Disk α) := fun s => Same.refl s

theorem quiet_lift (f : Machine Disk → Except (Stop Error) α) : Quiet (lift f) := by
  intro s
  rw [wp_lift]
  exact ⟨fun _ _ => Same.refl s, fun _ _ => Same.refl s⟩

theorem quiet_bind {x : DiskM Disk β} {f : β → DiskM Disk α} (hx : Quiet x)
    (hf : ∀ b, Quiet (f b)) : Quiet (x >>= f) := by
  intro s
  rw [wp_bind]
  apply wp_post (hx s)
  intro b s' hs'
  exact wp_mono (hf b s') (fun _ _ h => hs'.trans h) (fun _ _ h => hs'.trans h)

theorem quiet_read (sector : Nat) : Quiet (readSector (store present) sector) := by
  intro s
  rw [wp_readStore]
  exact ⟨fun _ => Same.asked s sector, fun _ => Same.asked s sector⟩

theorem quiet_scan {γ : Type} {body : β → γ → DiskM Disk (Turn α β)}
    (hbody : ∀ b c, Quiet (body b c)) (cs : List γ) (b : β) : Quiet (scan body cs b) := by
  induction cs generalizing b with
  | nil => exact quiet_pure _
  | cons c rest ih =>
    refine quiet_bind (hbody b c) fun t => ?_
    cases t with
    | done a => exact quiet_pure _
    | next b' => exact ih b'

theorem quiet_turns {e : Error} {body : β → DiskM Disk (Turn α β)} (hbody : ∀ b, Quiet (body b))
    (fuel : Nat) (b : β) : Quiet (turns (.error e) body fuel b) := by
  induction fuel generalizing b with
  | zero => exact quiet_err e
  | succ fuel ih =>
    refine quiet_bind (hbody b) fun t => ?_
    cases t with
    | done a => exact quiet_pure _
    | next b' => exact ih b'

end Rules

/-! ### The table -/

variable {d' : Disk}

section Table

variable (present : Nat → Bool) (m : Mount)

/-- What the table says about the next cluster. -/
def nextOf (d : Disk) (cluster : Nat) : Checked Error (Option Nat) := do
  let sector ← fatSector m cluster
  if present sector = true then decodeNext m (d sector) cluster else Checked.fail .io

theorem nextCluster_spec (cluster : Nat) (s : Machine Disk) :
    wp (nextCluster (store present) m cluster)
      (fun next s' => nextOf present m s.disk cluster = .ok next ∧ Same s s')
      (fun e s' => nextOf present m s.disk cluster = .error e ∧ Same s s') s := by
  unfold nextCluster nextOf
  rw [wp_bind, arith, wp_lift]
  refine ⟨fun sector hsector => ?_, fun e he => ⟨by rw [he]; rfl, Same.refl s⟩⟩
  rw [hsector, wp_bind, wp_readStore, except_ok_bind]
  refine ⟨fun hp => ?_, fun hp => ⟨by rw [hp]; rfl, Same.asked s sector⟩⟩
  rw [arith, wp_lift, if_pos hp]
  exact ⟨fun next h => ⟨h, Same.asked s sector⟩, fun e h => ⟨h, Same.asked s sector⟩⟩

theorem quiet_next (cluster : Nat) : Quiet (nextCluster (store present) m cluster) :=
  fun s => wp_mono (nextCluster_spec present m cluster s) (fun _ _ h => h.2) (fun _ _ h => h.2)

variable {m}

theorem fatSector_lt (hm : Sound m) {cluster sector : Nat} (h : fatSector m cluster = .ok sector) :
    sector < m.firstDataSector := by
  have hfat := hm.fat
  have hdata := hm.data
  have htotal := hm.total
  rcases except_bind_ok h with ⟨offset, -, h⟩
  rcases except_bind_ok h with ⟨lba, -, h⟩
  rw [Checked.add, if_pos (by omega), except_ok_bind, Checked.reject] at h
  split at h
  · cases h
  · obtain rfl := Except.ok.inj h
    omega

/-- The table is before the data area. -/
theorem nextOf_congr (hm : Sound m) {d : Disk} (h : ∀ n < m.firstDataSector, d' n = d n)
    (cluster : Nat) : nextOf present m d' cluster = nextOf present m d cluster := by
  unfold nextOf
  cases hsector : fatSector m cluster with
  | error e => rfl
  | ok sector => rw [except_ok_bind, except_ok_bind, h sector (fatSector_lt hm hsector)]

end Table

/-! ### Chains -/

/-- One cluster follows another. -/
def Next (present : Nat → Bool) (m : Mount) (d : Disk) (c c' : Nat) : Prop :=
  nextOf present m d c = .ok (some c')

/-- The sectors of the clusters that a chain has from its first one on. -/
def InChain (present : Nat → Bool) (m : Mount) (d : Disk) (start n : Nat) : Prop :=
  ∃ c k, Relation.ReflTransGen (Next present m d) start c ∧ k < m.sectorsPerCluster ∧
    dataSector m c k = .ok n

/-- The clusters after the first one of a chain that ends. -/
def IsChain (present : Nat → Bool) (m : Mount) (d : Disk) : Nat → List Nat → Prop
  | c, [] => InRange m c ∧ nextOf present m d c = .ok none
  | c, c' :: rest => InRange m c ∧ Next present m d c c' ∧ IsChain present m d c' rest

/-- The sectors of a cluster. -/
def clusterSectors (m : Mount) (c : Nat) : List Nat := (clusterOffsets m).map (sectorOf m c)

/-- The sectors of clusters. -/
def chainSectors (m : Mount) (cs : List Nat) : List Nat := cs.flatMap (clusterSectors m)

variable {c n : Nat} {cs : List Nat}

section Chains

variable {present : Nat → Bool} {m : Mount} {d : Disk}

theorem IsChain.inRange (h : IsChain present m d c cs) : InRange m c := by
  cases cs with
  | nil => exact h.1
  | cons c' rest => exact h.1

theorem IsChain.congr (hm : Sound m) (hd : ∀ n < m.firstDataSector, d' n = d n)
    (h : IsChain present m d c cs) : IsChain present m d' c cs := by
  induction cs generalizing c with
  | nil => exact ⟨h.1, (nextOf_congr present hm hd c).trans h.2⟩
  | cons c' rest ih => exact ⟨h.1, (nextOf_congr present hm hd c).trans h.2.1, ih h.2.2⟩

/-- The table decides what a chain is. -/
theorem IsChain.unique {cs' : List Nat} (h : IsChain present m d c cs)
    (h' : IsChain present m d c cs') : cs = cs' := by
  induction cs generalizing c cs' with
  | nil =>
    cases cs' with
    | nil => rfl
    | cons c' rest => exact nomatch h.2.symm.trans h'.2.1
  | cons c₁ rest ih =>
    cases cs' with
    | nil => exact nomatch h'.2.symm.trans h.2.1
    | cons c₂ rest' =>
      obtain rfl : c₁ = c₂ := Option.some.inj (Except.ok.inj (h.2.1.symm.trans h'.2.1))
      rw [ih h.2.2 h'.2.2]

/-- A later cluster starts a chain that is shorter. -/
theorem IsChain.suffix {x : Nat} (h : IsChain present m d c cs) (hx : x ∈ cs) :
    ∃ rest, IsChain present m d x rest ∧ rest.length < cs.length := by
  induction cs generalizing c with
  | nil => exact nomatch hx
  | cons c' rest ih =>
    rcases mem_cons.mp hx with rfl | hx
    · exact ⟨rest, h.2.2, Nat.lt_succ_self _⟩
    · rcases ih h.2.2 hx with ⟨rest', hchain, hlen⟩
      exact ⟨rest', hchain, hlen.trans (Nat.lt_succ_self _)⟩

theorem IsChain.nodup (h : IsChain present m d c cs) : (c :: cs).Nodup := by
  induction cs generalizing c with
  | nil => exact nodup_singleton c
  | cons c' rest ih =>
    refine nodup_cons.mpr ⟨fun hc => ?_, ih h.2.2⟩
    -- A cluster that came again would start two chains of different lengths.
    rcases h.suffix hc with ⟨again, hagain, hlen⟩
    rw [h.unique hagain] at hlen
    exact Nat.lt_irrefl _ hlen

theorem IsChain.reaches {x : Nat} (h : IsChain present m d c cs) (hx : x ∈ c :: cs) :
    InRange m x ∧ Relation.ReflTransGen (Next present m d) c x := by
  induction cs generalizing c with
  | nil =>
    obtain rfl := mem_singleton.mp hx
    exact ⟨h.1, .refl⟩
  | cons c' rest ih =>
    rcases mem_cons.mp hx with rfl | hx
    · exact ⟨h.1, .refl⟩
    · rcases ih h.2.2 hx with ⟨hrange, hreach⟩
      exact ⟨hrange, hreach.head h.2.1⟩

theorem mem_chainSectors :
    n ∈ chainSectors m cs ↔ ∃ c ∈ cs, ∃ k < m.sectorsPerCluster, sectorOf m c k = n := by
  simp [chainSectors, clusterSectors, clusterOffsets]

section Members

variable (hm : Sound m) (h : IsChain present m d c cs) (hn : n ∈ chainSectors m (c :: cs))

include hm h hn

theorem IsChain.inChain : InChain present m d c n := by
  rcases mem_chainSectors.mp hn with ⟨x, hx, k, hk, rfl⟩
  rcases h.reaches hx with ⟨hrange, hreach⟩
  exact ⟨x, k, hreach, hk, dataSector_ok hm hrange hk⟩

theorem IsChain.data : m.firstDataSector ≤ n := by
  rcases mem_chainSectors.mp hn with ⟨x, hx, k, hk, rfl⟩
  exact (sectorOf_bounds hm (h.reaches hx).1 hk).1

end Members

/-- A sector belongs to one cluster. -/
theorem sectorOf_inj {c' k k' : Nat} (hc : InRange m c) (hc' : InRange m c')
    (hk : k < m.sectorsPerCluster) (hk' : k' < m.sectorsPerCluster)
    (h : sectorOf m c k = sectorOf m c' k') : c = c' ∧ k = k' := by
  have hindex : ∀ a j, j < m.sectorsPerCluster →
      (a * m.sectorsPerCluster + j) / m.sectorsPerCluster = a := by
    intro a j hj
    rw [Nat.mul_comm, Nat.mul_add_div (by omega), Nat.div_eq_of_lt hj, Nat.add_zero]
  have heq : (c - 2) * m.sectorsPerCluster + k = (c' - 2) * m.sectorsPerCluster + k' := by
    unfold sectorOf at h
    omega
  have hclusters : c - 2 = c' - 2 := by
    rw [← hindex (c - 2) k hk, heq, hindex (c' - 2) k' hk']
  rw [hclusters] at heq
  have := hc.1
  have := hc'.1
  omega

theorem chainSectors_nodup (hnodup : cs.Nodup) (hrange : ∀ c ∈ cs, InRange m c) :
    (chainSectors m cs).Nodup := by
  rw [chainSectors, nodup_flatMap]
  constructor
  · intro c hc
    refine List.Nodup.map_on ?_ nodup_range
    intro k hk k' hk' h
    exact (sectorOf_inj (hrange c hc) (hrange c hc) (mem_range.mp hk) (mem_range.mp hk')
      h).2
  · refine hnodup.imp_of_mem ?_
    intro c c' hc hc' hne n hn hn'
    rcases mem_map.mp hn with ⟨k, hk, rfl⟩
    rcases mem_map.mp hn' with ⟨k', hk', h⟩
    exact hne (sectorOf_inj (hrange c hc) (hrange c' hc') (mem_range.mp hk)
      (mem_range.mp hk') h.symm).1

end Chains

/-! ### Measuring a chain -/

/-- A sector holds bytes, and a shorter part of a file is at its front. -/
def sectorFormat : Format Sector UInt8 :=
  { size := bytesPerSector
    items := Sector.bytes
    length_items := Sector.size
    load := Sector.load
    take_load := by
      intro part hpart
      change ((part ++ _).take bytesPerSector).take part.length = part
      rw [take_take, Nat.min_eq_left hpart, take_left] }

variable {bytes : List UInt8}

section Loops

variable {present : Nat → Bool} {m : Mount} (hm : Sound m) {d : Disk}

include hm

theorem checkCluster_ok (hc : InRange m c) : checkCluster m c = .ok () := by
  rw [checkCluster, addU32, if_pos hm.count.2, except_ok_bind, Checked.reject, if_neg]
  have := hc.1
  have := hc.2
  omega

theorem chainCapacity_spec (start : Nat) (s : Machine Disk) :
    wp (chainCapacity (store present) m start)
      (fun _ _ => ∃ cs, IsChain present m s.disk start cs ∧ cs.length < m.clusterCount)
      (fun _ _ => True) s := by
  unfold chainCapacity
  rw [wp_bind, arith, wp_lift]
  refine ⟨fun clusterBytes _ => ?_, fun _ _ => trivial⟩
  -- A chain from the cluster the loop is at makes one from the start.
  apply wp_turns (fun fuel at_ s' => s'.disk = s.disk ∧
    ∀ cs, IsChain present m s.disk at_.1 cs → cs.length < fuel →
      ∃ cs', IsChain present m s.disk start cs' ∧ cs'.length < m.clusterCount)
    (fun _ _ _ => trivial) _ _ _ s ⟨rfl, fun cs hcs hlen => ⟨cs, hcs, hlen⟩⟩
  rintro fuel ⟨c, capacity⟩ s' ⟨hdisk, hleft⟩
  unfold measureCluster
  rw [wp_bind, arith, wp_lift]
  refine ⟨fun _ hcheck => ?_, fun _ _ => trivial⟩
  have hc := (checkCluster_ends hm c).of_ok hcheck
  rw [wp_bind, arith, wp_lift]
  refine ⟨fun capacity' _ => ?_, fun _ _ => trivial⟩
  rw [wp_bind]
  apply wp_mono (nextCluster_spec present m c s') _ (fun _ _ _ => trivial)
  rintro next s'' ⟨hnext, hsame⟩
  rw [hdisk] at hnext
  cases next with
  | none => exact hleft [] ⟨hc, hnext⟩ (Nat.succ_pos fuel)
  | some c' =>
    refine ⟨hsame.1.trans hdisk, fun cs hcs hlen => ?_⟩
    exact hleft (c' :: cs) ⟨hc, hnext, hcs⟩ (Nat.succ_lt_succ hlen)

omit hm in
/-- What the table has after the first cluster decides what the rest of the chain is. -/
theorem IsChain.rest {rest : List Nat} (h : IsChain present m d c rest) {next : Option Nat}
    (hnext : nextOf present m d c = .ok next) :
    (next = none ∧ rest = []) ∨
      ∃ c' rest', next = some c' ∧ rest = c' :: rest' ∧ IsChain present m d c' rest' := by
  cases rest with
  | nil => exact .inl ⟨Except.ok.inj (hnext.symm.trans h.2), rfl⟩
  | cons c' rest' => exact .inr ⟨c', rest', Except.ok.inj (hnext.symm.trans h.2.1), rfl, h.2.2⟩

omit hm in
theorem IsChain.nextOf_ne_error {rest : List Nat} (h : IsChain present m d c rest) (e : Stop Error) :
    nextOf present m d c ≠ .error e := by
  cases rest with
  | nil => exact fun he => nomatch he.symm.trans h.2
  | cons c' rest' => exact fun he => nomatch he.symm.trans h.2.1

/-! ### Writing a chain -/

/-- So much of the input has been written, and the rest goes to the sectors `left`. -/
structure Writing (present : Nat → Bool) (m : Mount) (d : Disk) (sectors : List Nat)
    (input : List UInt8) (left : List Nat) (copied : Nat) (s : Machine Disk) : Prop where
  le : copied ≤ input.length
  fat : ∀ n < m.firstDataSector, s.disk n = d n
  disk : writeBlocks sectorFormat sectors input d =
    writeBlocks sectorFormat left (input.drop copied) s.disk
  room : input.length - copied ≤ left.length * bytesPerSector →
    input.length ≤ sectors.length * bytesPerSector
  there : (∀ n ∈ touched sectorFormat left (input.length - copied), present n = true) →
    ∀ n ∈ touched sectorFormat sectors input.length, present n = true

/-- The input is on the sectors. -/
structure Written (present : Nat → Bool) (d : Disk) (sectors : List Nat) (input : List UInt8)
    (d' : Disk) : Prop where
  disk : d' = writeBlocks sectorFormat sectors input d
  room : input.length ≤ sectors.length * bytesPerSector
  there : ∀ n ∈ touched sectorFormat sectors input.length, present n = true

variable {sectors left : List Nat} {input : List UInt8} {copied : Nat} {s : Machine Disk}

omit hm

theorem Writing.written (h : Writing present m d sectors input left copied s)
    (hall : copied = input.length) : Written present d sectors input s.disk := by
  have hzero : input.length - copied = 0 := by omega
  refine ⟨?_, h.room (by omega), h.there ?_⟩
  · rw [h.disk, hall, drop_length, writeBlocks_empty]
  · rw [hzero, touched_zero]
    exact fun _ hn => nomatch hn

theorem Writing.of_disk {s' : Machine Disk} (h : Writing present m d sectors input left copied s)
    (hdisk : s'.disk = s.disk) : Writing present m d sectors input left copied s' :=
  ⟨h.le, fun n hn => (congrFun hdisk n).trans (h.fat n hn), hdisk ▸ h.disk, h.room, h.there⟩

theorem Writing.step (h : Writing present m d sectors input (n :: left) copied s)
    (hlt : copied < input.length) (hn : m.firstDataSector ≤ n) (hp : present n = true)
    {log : List Access} :
    Writing present m d sectors input left (copied + min (input.length - copied) bytesPerSector)
      { disk := Function.update s.disk n
          (Sector.load ((input.drop copied).take (min (input.length - copied) bytesPerSector))),
        log } := by
  have hlen : (input.drop copied).length = input.length - copied := length_drop
  have hpart : (input.drop copied).take (min (input.length - copied) bytesPerSector) =
      (input.drop copied).take bytesPerSector := by
    rw [← hlen, Nat.min_comm, ← take_take, take_length]
  have hrest : input.drop (copied + min (input.length - copied) bytesPerSector) =
      (input.drop copied).drop bytesPerSector := by
    rw [drop_drop]
    rcases Nat.le_total (input.length - copied) bytesPerSector with hle | hle
    · rw [drop_of_length_le (by omega), drop_of_length_le (by omega)]
    · rw [Nat.min_eq_right hle]
  have hsub : input.length - (copied + min (input.length - copied) bytesPerSector) =
      input.length - copied - bytesPerSector := by omega
  refine ⟨by omega, ?_, ?_, ?_, ?_⟩
  · intro n' hn'
    rw [← h.fat n' hn']
    exact Function.update_of_ne (by omega) _ _
  · rw [h.disk, writeBlocks_cons _ (by omega), hpart, hrest]
    rfl
  · intro hroom
    refine h.room ?_
    rw [length_cons, Nat.add_mul]
    omega
  · intro hthere
    refine h.there ?_
    rw [touched_cons _ (by omega)]
    intro n' hn'
    rcases mem_cons.mp hn' with rfl | hn'
    · exact hp
    · refine hthere n' ?_
      rw [hsub]
      exact hn'

include hm

/-- One sector of the loop. -/
theorem writePart_spec {k : Nat} (hc : InRange m c) (hk : k < m.sectorsPerCluster)
    (hinput : input.length < 2 ^ 64)
    (h : Writing present m d sectors input (sectorOf m c k :: left) copied s) :
    wp (writePart (store present) m input c copied k)
      (fun t s' => t.Is (fun _ => Written present d sectors input s'.disk)
        (fun copied' => Writing present m d sectors input left copied' s'))
      (fun e _ => e = .error .io ∨ e = .error .badClusterChain) s := by
  have hle := h.le
  unfold writePart
  rw [wp_ite]
  refine ⟨fun hall => h.written hall, fun hne => ?_⟩
  have hlt : copied < input.length := by omega
  have hsub : (Checked.sub input.length copied : Checked Error Nat) = .ok (input.length - copied) :=
    if_pos hle
  rw [wp_bind, wp_arith_ok hsub, wp_bind]
  generalize hlength : min (input.length - copied) bytesPerSector = length
  have hadd : (Checked.add copied length : Checked Error Nat) = .ok (copied + length) :=
    if_pos (by omega)
  have hslice : (Checked.slice input copied (copied + length) : Checked Error (List UInt8)) =
      .ok ((input.drop copied).take length) := by
    rw [Checked.slice, if_pos ⟨by omega, by omega⟩, Nat.add_sub_cancel_left]
  rw [wp_arith_ok hadd, wp_bind, wp_arith_ok hslice, wp_bind,
    wp_arith_ok (dataSector_ok hm hc hk), wp_bind, wp_writeStore]
  refine ⟨fun hp => ?_, fun _ => .inl rfl⟩
  rw [← hlength]
  exact h.step hlt (sectorOf_bounds hm hc hk).1 hp

theorem writeCluster_spec {rest : List Nat} (hchain : IsChain present m d c rest)
    (hinput : input.length < 2 ^ 64)
    (h : Writing present m d sectors input (chainSectors m (c :: rest)) copied s) :
    wp (writeCluster (store present) m input (c, copied))
      (fun t s' => t.Is (fun _ => Written present d sectors input s'.disk) (fun at_ =>
        ∃ rest', IsChain present m d at_.1 rest' ∧
          Writing present m d sectors input (chainSectors m (at_.1 :: rest')) at_.2 s'))
      (fun e _ => e = .error .io ∨ e = .error .badClusterChain) s := by
  have hc := hchain.inRange
  unfold writeCluster
  rw [wp_bind, wp_arith_ok (checkCluster_ok hm hc), wp_bind]
  apply wp_post (wp_scan (fun offsets copied s => Writing present m d sectors input
    (offsets.map (sectorOf m c) ++ chainSectors m rest) copied s) (clusterOffsets m)
    (fun k hk _ _ _ h => writePart_spec hm hc (mem_range.mp hk) hinput h) h)
  intro t s' ht
  cases t with
  | done _ => exact ht
  | next copied' =>
    have hwriting : Writing present m d sectors input (chainSectors m rest) copied' s' := ht
    rw [wp_bind]
    apply wp_mono (nextCluster_spec present m c s')
    · rintro next s'' ⟨hnext, hsame⟩
      rw [nextOf_congr present hm hwriting.fat] at hnext
      have hwriting := hwriting.of_disk hsame.1
      rcases hchain.rest hnext with ⟨rfl, rfl⟩ | ⟨c', rest', rfl, rfl, hchain'⟩
      · rw [wp_ite]
        exact ⟨fun hall => hwriting.written hall, fun _ => .inr rfl⟩
      · exact ⟨rest', hchain', hwriting⟩
    · rintro e s'' ⟨he, -⟩
      rw [nextOf_congr present hm hwriting.fat] at he
      exact absurd he (hchain.nextOf_ne_error e)

theorem writeChain_spec (hwritable : m.writable = true) {start : Nat}
    (hchain : IsChain present m s.disk start cs) (hinput : input.length < 2 ^ 64) :
    wp (writeChain (store present) m start input)
      (fun _ s' => Written present s.disk (chainSectors m (start :: cs)) input s'.disk)
      (fun e _ => e = .error .io ∨ e = .error .badClusterChain) s := by
  unfold writeChain
  rw [wp_ite]
  refine ⟨fun hro => (nomatch hwritable.symm.trans hro), fun _ => ?_⟩
  have hstart : Writing present m s.disk (chainSectors m (start :: cs)) input
      (chainSectors m (start :: cs)) 0 s :=
    ⟨Nat.zero_le _, fun _ _ => rfl, rfl, fun h => h, fun h => h⟩
  apply wp_turns (fun _ (at_ : Nat × Nat) s' => ∃ rest, IsChain present m s.disk at_.1 rest ∧
    Writing present m s.disk (chainSectors m (start :: cs)) input (chainSectors m (at_.1 :: rest))
      at_.2 s') (fun _ _ _ => .inr rfl) _ _ (start, 0) s ⟨cs, hchain, hstart⟩
  rintro _ ⟨c, copied⟩ s' ⟨rest, hrest, hwriting⟩
  exact writeCluster_spec hm hrest hinput hwriting

omit hm

theorem Written.eq_of_not_mem (h : Written present d sectors input d') (hn : n ∉ sectors) :
    d' n = d n := by
  rw [h.disk]
  exact writeBlocks_of_not_mem sectorFormat hn input d

/-! ### Reading a chain -/

/-- The disk has the content on the sectors, and they can be read. -/
structure Holds (present : Nat → Bool) (d : Disk) (sectors : List Nat) (bytes : List UInt8) :
    Prop where
  content : (readBlocks sectorFormat sectors d).take bytes.length = bytes
  room : bytes.length ≤ sectors.length * bytesPerSector
  there : ∀ n ∈ touched sectorFormat sectors bytes.length, present n = true

theorem Written.holds (h : Written present d sectors input d') (hnodup : sectors.Nodup) :
    Holds present d' sectors input := by
  refine ⟨?_, h.room, h.there⟩
  rw [h.disk]
  exact readBlocks_writeBlocks sectorFormat hnodup input h.room d

theorem Holds.congr (h : Holds present d sectors bytes) (hd : ∀ n ∈ sectors, d' n = d n) :
    Holds present d' sectors bytes := by
  refine ⟨?_, h.room, h.there⟩
  rw [readBlocks_congr sectorFormat hd]
  exact h.content

/-- The first sector of content that is not empty. -/
theorem Holds.step (h : Holds present d (n :: left) bytes) (hpos : 0 < bytes.length) :
    present n = true ∧ ∃ rest,
      bytes = (d n).bytes.take (min bytes.length bytesPerSector) ++ rest ∧
      Holds present d left rest := by
  have hcontent := h.content
  have hroom := h.room
  have hthere := h.there
  have hsize := (d n).size
  rw [take_readBlocks_cons] at hcontent
  rw [length_cons, Nat.add_mul] at hroom
  rw [touched_cons _ (by omega)] at hthere
  change (d n).bytes.take (min bytes.length bytesPerSector) ++
    (readBlocks sectorFormat left d).take (bytes.length - min bytes.length bytesPerSector) =
      bytes at hcontent
  have hlen := congrArg List.length hcontent
  rw [length_append, length_take] at hlen
  generalize hrest : (readBlocks sectorFormat left d).take
    (bytes.length - min bytes.length bytesPerSector) = rest at hcontent hlen
  have hleft : rest.length = bytes.length - bytesPerSector := by omega
  refine ⟨hthere n mem_cons_self, rest, hcontent.symm, ?_, by omega, ?_⟩
  · have hcount : rest.length = bytes.length - min bytes.length bytesPerSector := by omega
    rw [hcount]
    exact hrest
  · rw [hleft]
    exact fun n' hn' => hthere n' (mem_cons_of_mem n hn')

theorem Holds.nil (h : Holds present d [] bytes) : bytes = [] := by
  have hroom := h.room
  rw [length_nil, Nat.zero_mul, Nat.le_zero] at hroom
  exact length_eq_zero_iff.mp hroom

/-- So much has been copied, and the sectors `left` have the rest. -/
def Reading (present : Nat → Bool) (d : Disk) (bytes : List UInt8) (left : List Nat)
    (copied : List UInt8) : Prop :=
  ∃ rest, bytes = copied ++ rest ∧ Holds present d left rest

variable {copied : List UInt8}

theorem Reading.all (h : Reading present d bytes left copied)
    (hall : copied.length = bytes.length) : copied = bytes := by
  rcases h with ⟨rest, rfl, -⟩
  have hrest : rest.length = 0 := by
    rw [length_append] at hall
    omega
  rw [length_eq_zero_iff.mp hrest, append_nil]

include hm

/-- One sector of the loop. -/
theorem readPart_spec {k : Nat} (hc : InRange m c) (hk : k < m.sectorsPerCluster)
    (hbytes : bytes.length < 2 ^ 64) (hdisk : s.disk = d)
    (h : Reading present d bytes (sectorOf m c k :: left) copied) :
    wp (readPart (store present) m bytes.length c copied k)
      (fun t s' => t.Is (fun copied' => s'.disk = d ∧ copied' = bytes)
        (fun copied' => s'.disk = d ∧ Reading present d bytes left copied'))
      (fun _ _ => False) s := by
  unfold readPart
  rw [wp_ite]
  subst hdisk
  refine ⟨fun hall => ⟨rfl, h.all hall⟩, fun hne => ?_⟩
  rcases h with ⟨rest, rfl, hholds⟩
  rw [length_append] at hne hbytes ⊢
  rcases hholds.step (by omega) with ⟨hp, rest', hrest, hholds'⟩
  have hsub : (Checked.sub (copied.length + rest.length) copied.length : Checked Error Nat) =
      .ok rest.length := by
    rw [Checked.sub, if_pos (Nat.le_add_right _ _), Nat.add_sub_cancel_left]
  have hadd : (Checked.add copied.length (min rest.length bytesPerSector) : Checked Error Nat) =
      .ok _ := if_pos (by omega)
  rw [wp_bind, wp_arith_ok (dataSector_ok hm hc hk), wp_bind, wp_readStore]
  refine ⟨fun _ => ?_, fun hno => by cases hp.symm.trans hno⟩
  rw [wp_bind, wp_arith_ok hsub, wp_bind, wp_arith_ok hadd]
  refine ⟨rfl, rest', ?_, hholds'⟩
  rw [append_assoc, ← hrest]

theorem readCluster_spec {rest : List Nat} (hchain : IsChain present m d c rest)
    (hbytes : bytes.length < 2 ^ 64) (hdisk : s.disk = d)
    (h : Reading present d bytes (chainSectors m (c :: rest)) copied) :
    wp (readCluster (store present) m bytes.length (c, copied))
      (fun t s' => t.Is (fun copied' => copied' = bytes) (fun at_ => s'.disk = d ∧
        ∃ rest', rest'.length < rest.length ∧ IsChain present m d at_.1 rest' ∧
          Reading present d bytes (chainSectors m (at_.1 :: rest')) at_.2))
      (fun _ _ => False) s := by
  have hc := hchain.inRange
  unfold readCluster
  rw [wp_bind, wp_arith_ok (checkCluster_ok hm hc), wp_bind]
  apply wp_post (wp_scan (fun offsets copied (s' : Machine Disk) => s'.disk = d ∧
    Reading present d bytes (offsets.map (sectorOf m c) ++ chainSectors m rest) copied)
    (clusterOffsets m) (fun k hk _ _ _ h => readPart_spec hm hc (mem_range.mp hk) hbytes h.1 h.2)
    ⟨hdisk, h⟩)
  intro t s' ht
  cases t with
  | done _ => exact ht.2
  | next copied' =>
    rcases ht with ⟨hdisk, hreading⟩
    rw [wp_bind]
    apply wp_mono (nextCluster_spec present m c s')
    · rintro next s'' ⟨hnext, hsame⟩
      rw [hdisk] at hnext
      rcases hchain.rest hnext with ⟨rfl, rfl⟩ | ⟨c', rest', rfl, rfl, hchain'⟩
      · rcases hreading with ⟨rest, rfl, hholds⟩
        obtain rfl := hholds.nil
        rw [append_nil, wp_ite]
        exact ⟨fun _ => rfl, fun hne => hne rfl⟩
      · exact ⟨hsame.1.trans hdisk, rest', Nat.lt_succ_self _, hchain', hreading⟩
    · rintro e s'' ⟨he, -⟩
      rw [hdisk] at he
      exact hchain.nextOf_ne_error e he

theorem readChain_spec {start : Nat} (hchain : IsChain present m s.disk start cs)
    (hlen : cs.length < m.clusterCount) (hbytes : bytes.length < 2 ^ 64)
    (hholds : Holds present s.disk (chainSectors m (start :: cs)) bytes) {outputLength : Nat}
    (houtput : bytes.length ≤ outputLength) :
    wp (readChain (store present) m start bytes.length outputLength)
      (fun copied _ => copied = bytes) (fun _ _ => False) s := by
  unfold readChain
  rw [wp_ite]
  refine ⟨fun hlt => absurd houtput (Nat.not_le.mpr hlt), fun _ => ?_⟩
  rw [wp_ite]
  refine ⟨fun hzero => (length_eq_zero_iff.mp hzero).symm, fun _ => ?_⟩
  apply wp_turns (fun fuel (at_ : Nat × List UInt8) (s' : Machine Disk) => s'.disk = s.disk ∧
    ∃ rest, rest.length < fuel ∧ IsChain present m s.disk at_.1 rest ∧
      Reading present s.disk bytes (chainSectors m (at_.1 :: rest)) at_.2) _ _ _ (start, []) s
    ⟨rfl, cs, hlen, hchain, bytes, rfl, hholds⟩
  · rintro _ _ ⟨-, rest, hfuel, -⟩
    exact absurd hfuel (Nat.not_lt_zero _)
  · rintro fuel ⟨c, copied⟩ s' ⟨hdisk, rest, hfuel, hrest, hreading⟩
    apply wp_post (readCluster_spec hm hrest hbytes hdisk hreading)
    intro t s'' ht
    cases t with
    | done _ => exact ht
    | next at_ =>
      rcases ht with ⟨hdisk', rest', hlt, hchain'⟩
      exact ⟨hdisk', rest', by omega, hchain'⟩

end Loops

end Fat32

end Norx
