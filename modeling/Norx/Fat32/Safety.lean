import Norx.Fat32.Mount

/-!
# What a Volume Reads and Writes

The sectors of a hostile disk can say anything, so a cluster number that comes from
one has to be checked before an address is computed from it. The loops over the
content of a file check each cluster they come to. The search of a directory does
not: it starts at whatever cluster a directory entry names and follows the table,
which may name cluster 1. `files_safe` is that this is the only hole: if every
cluster that directories lead to is a cluster of the volume, no operation panics,
every request is for a sector of the volume, and writes stay in the data area.

The reader may return anything, and not the same thing twice. So the clusters that
directories lead to are those that anything the reader ever returns leads to.

## Theorems

* `files_safe`: The result.
* `directory_underflows`: A directory entry that names cluster 0.
-/

namespace Norx

namespace Fat32

open Fallible List

/-! ### Opening -/

/-- What is known of an opened volume. -/
structure Sound (m : Mount) : Prop where
  cluster : 0 < m.sectorsPerCluster ∧ m.sectorsPerCluster ≤ 128
  reserved : m.reservedSectors < 2 ^ 16
  fat : 0 < m.fatSize ∧ m.reservedSectors + m.fatSize ≤ m.firstDataSector
  data : m.firstDataSector + m.clusterCount * m.sectorsPerCluster ≤ m.totalSectors
  total : m.totalSectors < 2 ^ 32
  count : 0 < m.clusterCount ∧ m.clusterCount + 1 < 2 ^ 32
  root : 2 ≤ m.rootCluster ∧ m.rootCluster ≤ m.clusterCount + 1

theorem leNat_field_lt (bytes : List UInt8) (offset n : Nat) :
    leNat ((bytes.drop offset).take n) < 256 ^ n :=
  (leNat_lt _).trans_le (Nat.pow_le_pow_right (by decide) (length_take_le _ _))

theorem leU16_lt (bytes : List UInt8) (offset : Nat) : leU16 bytes offset < 2 ^ 16 :=
  leNat_field_lt bytes offset 2

theorem leU32_lt (bytes : List UInt8) (offset : Nat) : leU32 bytes offset < 2 ^ 32 :=
  leNat_field_lt bytes offset 4

@[simp] theorem ends_addU32 {a b : Nat} {Q : Nat → Prop} :
    Checked.Ends (addU32 a b) Q ↔ a + b < 2 ^ 32 ∧ Q (a + b) := ends_unless

theorem geometry_sound (writable : Bool) (bpb : List UInt8) :
    Checked.Ends (geometry writable bpb) fun m => Sound m ∧ m.writable = writable := by
  have hreserved := leU16_lt bpb 14
  have hfatSize := leU32_lt bpb 36
  have htotal : (if leU16 bpb 19 ≠ 0 then leU16 bpb 19 else leU32 bpb 32) < 2 ^ 32 := by
    split
    · exact (leU16_lt bpb 19).trans (by decide)
    · exact leU32_lt bpb 32
  unfold geometry
  -- From here on only what the fields are bounded by matters.
  generalize (if leU16 bpb 19 ≠ 0 then leU16 bpb 19 else leU32 bpb 32) = total at htotal ⊢
  generalize leU16 bpb 14 = reserved at hreserved ⊢
  generalize leU32 bpb 36 = fatSize at hfatSize ⊢
  generalize (byteAt bpb 13).toNat = spc
  generalize (byteAt bpb 16).toNat = fatCount
  generalize leU32 bpb 44 = root
  simp [bytesPerSector]
  intro _ _ _ _ hspc _ hmax _ hcount _ hfat hroot _ _ _ hfirst
  have hfats : reserved + fatSize ≤ reserved + fatCount * fatSize :=
    Nat.add_le_add_left (Nat.le_mul_of_pos_left _ (Nat.pos_of_ne_zero hcount)) _
  generalize reserved + fatCount * fatSize = first at hfirst hfats ⊢
  have hdata : (total - first) / spc * spc ≤ total - first := Nat.div_mul_le_self _ _
  have hone : (total - first) / spc ≤ total - first := Nat.div_le_self _ _
  generalize (total - first) / spc = clusters at hdata hone ⊢
  refine ⟨hfirst.le, fun _ => ⟨by omega, by omega, by omega, fun hsome _ => ⟨by omega, fun hlast =>
    ⟨⟨Nat.pos_of_ne_zero hspc, hmax⟩, hreserved, ⟨Nat.pos_of_ne_zero hfat, hfats⟩, ?_, htotal,
      ⟨?_, ?_⟩, hroot, hlast⟩⟩⟩⟩
  · change first + clusters * spc ≤ total
    omega
  · exact Nat.lt_of_lt_of_le (by decide) hsome
  · change clusters + 1 < 2 ^ 32
    omega

/-! ### Clusters -/

/-- A cluster of the volume. -/
def InRange (m : Mount) (cluster : Nat) : Prop := 2 ≤ cluster ∧ cluster ≤ m.clusterCount + 1

/-- Where a sector of a cluster is. -/
def sectorOf (m : Mount) (cluster sector : Nat) : Nat :=
  m.firstDataSector + (cluster - 2) * m.sectorsPerCluster + sector

variable {cluster sector : Nat}

section Clusters

variable {m : Mount} (hm : Sound m)

include hm

theorem sectorOf_bounds (hc : InRange m cluster) (hs : sector < m.sectorsPerCluster) :
    m.firstDataSector ≤ sectorOf m cluster sector ∧ sectorOf m cluster sector < m.totalSectors := by
  have hle : (cluster - 2 + 1) * m.sectorsPerCluster ≤ m.clusterCount * m.sectorsPerCluster :=
    Nat.mul_le_mul_right _ (by have := hc.1; have := hc.2; omega)
  have hdata := hm.data
  rw [Nat.add_mul] at hle
  unfold sectorOf
  omega

theorem dataSector_ok (hc : InRange m cluster) (hs : sector < m.sectorsPerCluster) :
    dataSector m cluster sector = .ok (sectorOf m cluster sector) := by
  have hbounds := sectorOf_bounds hm hc hs
  have htotal := hm.total
  unfold sectorOf at hbounds
  rw [dataSector, clusterSector, Checked.sub, if_pos hc.1]
  simp only [except_ok_bind]
  rw [Checked.mul, if_pos (by omega), except_ok_bind, Checked.add, if_pos (by omega),
    except_ok_bind, Checked.add, if_pos (by omega)]
  rfl

theorem checkCluster_ends (cluster : Nat) :
    Checked.Ends (checkCluster m cluster) fun _ => InRange m cluster := by
  rw [checkCluster, ends_bind, ends_addU32, ends_reject]
  exact ⟨hm.count.2, fun h => by unfold InRange; omega⟩

theorem fatSector_ends (hc : cluster < 2 ^ 32) :
    Checked.Ends (fatSector m cluster) fun sector =>
      sector < m.firstDataSector ∧ sector < m.totalSectors := by
  have hfat := hm.fat
  have hdata := hm.data
  have htotal := hm.total
  have hoffset : cluster * 4 / bytesPerSector ≤ cluster * 4 := Nat.div_le_self _ _
  simp only [fatSector, ends_bind, ends_mul, ends_add, ends_reject, ends_pure]
  omega

theorem decodeNext_ends (data : Sector) (cluster : Nat) :
    Checked.Ends (decodeNext m data cluster) fun next =>
      ∀ c, next = some c → c ≠ 0 ∧ c ≤ m.clusterCount + 1 := by
  simp +contextual [decodeNext]
  exact fun _ => hm.count.2

end Clusters

/-! ### Safe programs -/

/-- The request is for a sector of the volume, and a write for one of the data
    area. -/
def Allowed (m : Mount) : Access → Prop
  | .read sector => sector < m.totalSectors
  | .write sector => m.firstDataSector ≤ sector ∧ sector < m.totalSectors

/-- Every request so far was allowed. -/
def Clean {σ : Type} (m : Mount) (s : Machine σ) : Prop := ∀ a ∈ s.log, Allowed m a

/-- The program does not panic and makes allowed requests only, and what it returns
    satisfies `Q`. -/
def Safely {σ α : Type} (m : Mount) (x : DiskM σ α) (Q : α → Prop) : Prop :=
  ∀ s, Clean m s → wp x (fun a s' => Q a ∧ Clean m s') (fun e s' => e ≠ .panic ∧ Clean m s') s

/-- The reader has an answer like this for the sector. -/
def Returned {σ : Type} (dev : Medium σ) (sector : Nat) (data : Sector) : Prop :=
  ∃ d d', dev.read sector d = (some data, d')

variable {c : Prop}

section Rules

variable {σ α β : Type} {m : Mount} {Q : α → Prop}

theorem safely_pure {a : α} (h : Q a) : Safely (σ := σ) m (pure a) Q := fun _ hs => ⟨h, hs⟩

theorem safely_err (e : Error) : Safely (σ := σ) m (err e) Q := fun _ hs => ⟨nofun, hs⟩

variable {f : β → DiskM σ α}

theorem safely_bind {x : DiskM σ β} {R : β → Prop} (hx : Safely m x R)
    (hf : ∀ b, R b → Safely m (f b) Q) : Safely m (x >>= f) Q := by
  intro s hs
  rw [wp_bind]
  exact wp_post (hx s hs) (fun b s' h => hf b h.1 s' h.2)

theorem safely_mono {x : DiskM σ α} {R : α → Prop} (h : Safely m x R) (hR : ∀ a, R a → Q a) :
    Safely m x Q :=
  fun s hs => wp_post (h s hs) (fun a _ h => ⟨hR a h.1, h.2⟩)

theorem safely_ite [Decidable c] {x y : DiskM σ α} (hx : c → Safely m x Q)
    (hy : ¬ c → Safely m y Q) : Safely m (if c then x else y) Q := by
  by_cases hc : c
  · rw [if_pos hc]
    exact hx hc
  · rw [if_neg hc]
    exact hy hc

variable {x : Checked Error α}

/-- Arithmetic that does not panic, when its result is to be remembered. -/
theorem safely_result {R : α → Prop} (h : Checked.Ends x R) :
    Safely (σ := σ) m (arith x) fun a => x = .ok a := by
  intro s hs
  rw [arith, wp_lift]
  refine ⟨fun a ha => ⟨ha, hs⟩, fun e he => ⟨?_, hs⟩⟩
  rintro rfl
  exact h.no_panic he

theorem safely_arith (h : Checked.Ends x Q) :
    Safely (σ := σ) m (arith x) Q :=
  safely_mono (safely_result h) fun _ ha => h.of_ok ha

/-- Arithmetic, and the rest. -/
theorem safely_check {x : Checked Error β} (h : Checked.Ends x fun b => Safely m (f b) Q) :
    Safely m (arith x >>= f) Q :=
  safely_bind (safely_arith h) fun _ hb => hb

/-- An early return. -/
theorem safely_guard [Decidable c] {e : Error} {x : DiskM σ α} (h : ¬ c → Safely m x Q) :
    Safely m (if c then err e >>= f else x) Q :=
  safely_ite (fun _ => safely_bind (safely_err (Q := fun _ => False) e) nofun) h

theorem safely_components (path : Name) :
    Safely (σ := σ) m (lift fun _ => (components path).mapError .error) fun _ => True := by
  intro s hs
  rw [wp_lift]
  refine ⟨fun _ _ => ⟨trivial, hs⟩, fun e he => ⟨?_, hs⟩⟩
  rintro rfl
  cases hc : components path with
  | error | ok => rw [hc] at he; exact nomatch he

theorem clean_log {s : Machine σ} (hs : Clean m s) {a : Access} (ha : Allowed m a) (d : σ) :
    Clean m { disk := d, log := s.log ++ [a] } := by
  intro b hb
  rcases mem_append.mp hb with hb | hb
  · exact hs b hb
  · rw [mem_singleton.mp hb]
    exact ha

theorem safely_read {dev : Medium σ} (h : sector < m.totalSectors) :
    Safely m (readSector dev sector) (Returned dev sector) := by
  intro s hs
  have h : Allowed m (.read sector) := h
  unfold wp readSector
  rcases hread : dev.read sector s.disk with ⟨_ | data, d⟩
  · exact ⟨nofun, clean_log hs h d⟩
  · exact ⟨⟨s.disk, d, hread⟩, clean_log hs h d⟩

theorem safely_write {dev : Medium σ} {data : Sector}
    (h : m.firstDataSector ≤ sector ∧ sector < m.totalSectors) :
    Safely m (writeSector dev sector data) fun _ => True := by
  intro s hs
  have h : Allowed m (.write sector) := h
  unfold wp writeSector
  rcases dev.write sector data s.disk with ⟨_ | _, d⟩
  · exact ⟨nofun, clean_log hs h d⟩
  · exact ⟨trivial, clean_log hs h d⟩

theorem safely_scan {γ : Type} {body : β → γ → DiskM σ (Turn α β)} (P : β → Prop) (cs : List γ)
    (hbody : ∀ c ∈ cs, ∀ b, P b → Safely m (body b c) fun t => t.Is Q P) {b : β} (hb : P b) :
    Safely m (scan body cs b) fun t => t.Is Q P := by
  intro s hs
  refine wp_post (wp_scan (Q := fun a s' => Q a ∧ Clean m s') (fun _ b s => P b ∧ Clean m s) cs
    (fun c hc _ b s h => wp_post (hbody c hc b h.1 s h.2) ?_) ⟨hb, hs⟩) ?_
  all_goals
    intro t s' ht
    cases t with
    | done | next => exact ht

theorem safely_turns {e : Error} {body : β → DiskM σ (Turn α β)} (P : β → Prop)
    (hbody : ∀ b, P b → Safely m (body b) fun t => t.Is Q P) (fuel : Nat) {b : β} (hb : P b) :
    Safely m (turns (.error e) body fuel b) Q := by
  intro s hs
  apply wp_turns (fun _ b s => P b ∧ Clean m s) (fun _ _ h => ⟨nofun, h.2⟩) _ fuel b s ⟨hb, hs⟩
  rintro _ b s ⟨hb, hs⟩
  apply wp_post (hbody b hb s hs)
  rintro t s' ⟨ht, hs'⟩
  cases t with
  | done | next => exact ⟨ht, hs'⟩

end Rules

/-! ### The parts of an operation -/

/-- The entry is one that a search compares with a name. -/
def Listed (entry : List UInt8) : Prop :=
  byteAt entry 0 ≠ 0 ∧ byteAt entry 0 ≠ 0xe5 ∧ byteAt entry 11 ≠ 0x0f

/-- The clusters that directories lead to: the root, what an entry of a directory
    names as one, and what the table has after the cluster of a directory. -/
inductive Leads {σ : Type} (dev : Medium σ) (m : Mount) : Nat → Prop
  | root : Leads dev m m.rootCluster
  | entry {cluster sector lba : Nat} {data : Sector} {slot : Fin 16} (h : Leads dev m cluster)
      (hs : sector < m.sectorsPerCluster) (hlba : dataSector m cluster sector = .ok lba)
      (hdata : Returned dev lba data) (hlisted : Listed (data.entry slot))
      (hdirectory : (DirectoryEntry.decode (data.entry slot)).directory = true) :
      Leads dev m (DirectoryEntry.decode (data.entry slot)).cluster
  | next {cluster lba next : Nat} {data : Sector} (h : Leads dev m cluster)
      (hlba : fatSector m cluster = .ok lba) (hdata : Returned dev lba data)
      (hnext : decodeNext m data cluster = .ok (some next)) : Leads dev m next

theorem judge_found {target : Name} {name : LongName} {entry : List UInt8}
    (h : judge target name entry = .found) : Listed entry := by
  unfold judge at h
  split at h
  · exact nomatch h
  · split at h
    · exact nomatch h
    · split at h
      · exact nomatch h
      · rename_i h0 h5 hf
        exact ⟨h0, h5, hf⟩

section Parts

variable {σ : Type} {dev : Medium σ} {m : Mount} (hm : Sound m)

/-- What is known of a location that was found. -/
def Placed (dev : Medium σ) (m : Mount) (location : EntryLocation) : Prop :=
  (m.firstDataSector ≤ location.sector ∧ location.sector < m.totalSectors) ∧
    (location.entry.directory = true → Leads dev m location.entry.cluster) ∧
    location.entry.size < 2 ^ 32

include hm

theorem nextCluster_safely (hc : cluster < 2 ^ 32) :
    Safely m (nextCluster dev m cluster) fun next =>
      ∀ c, next = some c → ∃ lba data, fatSector m cluster = .ok lba ∧ Returned dev lba data ∧
        decodeNext m data cluster = .ok (some c) := by
  refine safely_bind (safely_result (fatSector_ends hm hc)) fun lba hlba => ?_
  have hbound := ((fatSector_ends hm hc).of_ok hlba).2
  refine safely_bind (safely_read hbound) fun data hdata => ?_
  refine safely_mono (safely_result (decodeNext_ends hm data cluster)) fun next hnext => ?_
  rintro c rfl
  exact ⟨lba, data, hlba, hdata, hnext⟩

theorem dataSector_safely (hc : InRange m cluster) (hs : sector < m.sectorsPerCluster) :
    Safely (σ := σ) m (arith (dataSector m cluster sector))
      fun lba => lba = sectorOf m cluster sector := by
  apply safely_arith
  rw [dataSector_ok hm hc hs]
  exact rfl

/-- The end of a turn of a loop over a chain. -/
theorem follow_safely {α β : Type} {P : Nat × β → Prop} (hc : InRange m cluster) [Decidable c]
    {a : α} {b : β} (hb : ∀ next, P (next, b)) :
    Safely m (nextCluster dev m cluster >>= fun next =>
      match next with
      | none => if c then pure (Turn.done a) else err .badClusterChain
      | some next => pure (Turn.next (next, b))) fun t => t.Is (fun _ => True) P := by
  have hlast := hm.count.2
  refine safely_bind (nextCluster_safely hm (by have := hc.2; omega)) fun next _ => ?_
  cases next with
  | none => exact safely_ite (fun _ => safely_pure trivial) fun _ => safely_err _
  | some c => exact safely_pure (hb c)

theorem find_safely (hleads : ∀ c, Leads dev m c → InRange m c) {directory : Nat}
    (hd : Leads dev m directory) (target : Name) :
    Safely m (findEntryLocation dev m directory target) (Placed dev m) := by
  refine safely_turns (fun at_ => Leads dev m at_.1) ?_ _ hd
  rintro ⟨cluster, name⟩ hcluster
  have hc := hleads cluster hcluster
  have hlast := hm.count.2
  refine safely_bind (safely_scan (Q := Placed dev m) (fun _ => True) _ ?_ trivial) ?_
  · intro sector hsector _ _
    have hs := mem_range.mp hsector
    have hbounds := sectorOf_bounds hm hc hs
    refine safely_bind (dataSector_safely hm hc hs) ?_
    rintro _ rfl
    refine safely_bind (safely_read hbounds.2) fun data hdata => ?_
    refine safely_scan (fun _ => True) _ ?_ trivial
    intro slot _ name _
    unfold searchEntry
    split
    · exact safely_err _
    · rename_i hfound
      exact safely_pure ⟨hbounds, fun hdirectory =>
        .entry hcluster hs (dataSector_ok hm hc hs) hdata (judge_found hfound) hdirectory,
        leU32_lt _ _⟩
    · exact safely_pure trivial
  · intro t ht
    cases t with
    | done location => exact safely_pure ht
    | next name =>
      refine safely_bind (nextCluster_safely hm (by have := hc.2; omega)) fun next hnext => ?_
      cases next with
      | none => exact safely_err _
      | some c =>
        rcases hnext c rfl with ⟨lba, data, hlba, hdata, hdecode⟩
        exact safely_pure (.next hcluster hlba hdata hdecode)

theorem readChain_safely {start size outputLength : Nat} (hsize : size < 2 ^ 32) :
    Safely m (readChain dev m start size outputLength) fun _ => True := by
  refine safely_ite (fun _ => safely_err _) fun _ => ?_
  refine safely_ite (fun _ => safely_pure trivial) fun _ => ?_
  refine safely_turns (fun at_ => at_.2.length ≤ size) ?_ _ (Nat.zero_le _)
  rintro ⟨cluster, copied⟩ hcopied
  refine safely_bind (safely_arith (checkCluster_ends hm cluster)) fun _ hc => ?_
  refine safely_bind (safely_scan (Q := fun _ => True) (fun copied => copied.length ≤ size) _ ?_
    hcopied) ?_
  · intro sector hsector copied hcopied
    have hs := mem_range.mp hsector
    refine safely_ite (fun _ => safely_pure trivial) fun _ => ?_
    refine safely_bind (dataSector_safely hm hc hs) ?_
    rintro _ rfl
    refine safely_bind (safely_read (sectorOf_bounds hm hc hs).2) fun data _ => ?_
    refine safely_check (ends_sub.mpr ⟨hcopied, safely_check (ends_add.mpr ⟨by omega, ?_⟩)⟩)
    refine safely_pure ?_
    change (copied ++ data.bytes.take _).length ≤ size
    rw [length_append, length_take]
    omega
  · intro t ht
    cases t with
    | done copied => exact safely_pure trivial
    | next copied => exact follow_safely hm hc fun _ => ht

theorem chainCapacity_safely (start : Nat) :
    Safely m (chainCapacity dev m start) fun _ => True := by
  have hspc := hm.cluster.2
  have hlast := hm.count.2
  refine safely_check (ends_mul.mpr ⟨by unfold bytesPerSector; omega, ?_⟩)
  refine safely_turns (fun _ => True) ?_ _ trivial
  rintro ⟨cluster, capacity⟩ -
  refine safely_bind (safely_arith (checkCluster_ends hm cluster)) fun _ hc => ?_
  refine safely_check (ends_require.mpr fun _ _ => ?_)
  refine safely_bind (nextCluster_safely hm (by have := hc.2; omega)) fun next _ => ?_
  cases next with
  | none | some => exact safely_pure trivial

variable {input : List UInt8}

theorem writeChain_safely {start : Nat} (hinput : input.length < 2 ^ 64) :
    Safely m (writeChain dev m start input) fun _ => True := by
  refine safely_guard fun _ => ?_
  refine safely_turns (fun at_ => at_.2 ≤ input.length) ?_ _ (Nat.zero_le _)
  rintro ⟨cluster, copied⟩ hcopied
  refine safely_bind (safely_arith (checkCluster_ends hm cluster)) fun _ hc => ?_
  refine safely_bind (safely_scan (Q := fun _ => True) (fun copied => copied ≤ input.length) _ ?_
    hcopied) ?_
  · intro sector hsector copied hcopied
    have hs := mem_range.mp hsector
    refine safely_ite (fun _ => safely_pure trivial) fun _ => ?_
    refine safely_check (ends_sub.mpr ⟨hcopied, safely_check (ends_add.mpr ⟨by omega, ?_⟩)⟩)
    refine safely_check (ends_slice.mpr ⟨⟨Nat.le_add_right _ _, by omega⟩, ?_⟩)
    refine safely_bind (dataSector_safely hm hc hs) ?_
    rintro _ rfl
    refine safely_bind (safely_write (sectorOf_bounds hm hc hs)) fun _ _ => ?_
    refine safely_pure ?_
    change copied + min _ _ ≤ _
    omega
  · intro t ht
    cases t with
    | done _ => exact safely_pure trivial
    | next copied => exact follow_safely hm hc fun _ => ht

section Leading

variable (hleads : ∀ c, Leads dev m c → InRange m c)

include hleads

theorem walk_safely (components : List Name) {directory : Nat} (hd : Leads dev m directory) :
    Safely m (walk dev m directory components) fun at_ => Leads dev m at_.1 := by
  induction components generalizing directory with
  | nil => exact safely_err _
  | cons component rest ih =>
    cases rest with
    | nil => exact safely_pure hd
    | cons next rest =>
      refine safely_bind (safely_bind (find_safely hm hleads hd component)
        (Q := fun entry => entry.directory = true → Leads dev m entry.cluster)
        fun location h => safely_pure h.2.1) fun entry hentry => ?_
      refine safely_guard fun hdirectory => ?_
      exact ih (hentry (by simpa using hdirectory))

theorem readFile_safely (path : Name) (outputLength : Nat) :
    Safely m (readFile dev m path outputLength) fun _ => True := by
  refine safely_bind (safely_components path) fun components _ => ?_
  refine safely_bind (walk_safely hm hleads components .root) fun at_ hat => ?_
  refine safely_bind (safely_bind (find_safely hm hleads hat at_.2)
    (Q := fun entry => entry.size < 2 ^ 32) fun location h => safely_pure h.2.2) fun entry hsize => ?_
  refine safely_guard fun _ => ?_
  exact readChain_safely hm hsize

theorem writeFile_safely (path : Name) (hinput : input.length < 2 ^ 64) :
    Safely m (writeFile dev m path input) fun _ => True := by
  refine safely_guard fun _ => ?_
  refine safely_bind (safely_components path) fun components _ => ?_
  refine safely_bind (walk_safely hm hleads components .root) fun at_ hat => ?_
  refine safely_bind (find_safely hm hleads hat at_.2) fun location hlocation => ?_
  refine safely_guard fun _ => ?_
  refine safely_bind (chainCapacity_safely hm _) fun capacity _ => ?_
  refine safely_guard fun _ => ?_
  refine safely_bind (writeChain_safely hm hinput) fun _ _ => ?_
  refine safely_bind (safely_read hlocation.1.2) fun data _ => ?_
  refine safely_bind (safely_write hlocation.1) fun _ _ => ?_
  exact safely_pure trivial

end Leading

end Parts

variable {m : Mount}

theorem openWithWriter_sound {σ : Type} {dev : Medium σ} {writable : Bool} {s s' : Machine σ}
    (h : openWithWriter dev writable s = (.ok m, s')) : Sound m := by
  change andThen (readSector dev 0) (fun bpb => arith (geometry writable bpb.bytes)) s = _ at h
  unfold andThen at h
  rcases hread : readSector dev 0 s with ⟨_ | bpb, s₁⟩
  · rw [hread] at h
    exact nomatch h
  · rw [hread] at h
    exact ((geometry_sound writable bpb.bytes).of_ok (congrArg Prod.fst h)).1

/-- A run of a safe program that starts with no request made. -/
theorem Safely.run {σ α : Type} {x : DiskM σ α} {Q : α → Prop} (h : Safely m x Q) (d : σ) :
    (x ⟨d, []⟩).1 ≠ .error .panic ∧ Clean m (x ⟨d, []⟩).2 := by
  have hx := h ⟨d, []⟩ (fun _ ha => nomatch ha)
  unfold wp at hx
  rcases hr : x ⟨d, []⟩ with ⟨e | a, s⟩ <;> rw [hr] at hx
  · exact ⟨fun he => hx.1 (Except.error.inj he), hx.2⟩
  · exact ⟨nofun, hx.2⟩

theorem Allowed.sector_lt {a : Access} (h : Allowed m a) : a.sector < m.totalSectors := by
  cases a with
  | read sector => exact h
  | write sector => exact h.2

/-! ### The result -/

/-- The first sector of a volume with one reserved sector, a table of 1024 sectors, one
    sector a cluster and the root directory in cluster 2. -/
def bootSector : List UInt8 :=
  List.replicate 11 0 ++ leBytes 2 512 ++ [1] ++ leBytes 2 1 ++ [1, 0, 0, 0, 0, 0xf8] ++
    List.replicate 10 0 ++ leBytes 4 131072 ++ leBytes 4 1024 ++ List.replicate 4 0 ++
    leBytes 4 2 ++ List.replicate 462 0 ++ [0x55, 0xaa]

/-- An entry with a name of one letter. -/
def plainEntry (letter attributes : UInt8) (cluster size : Nat) : List UInt8 :=
  letter :: List.replicate 10 space ++ [attributes] ++ List.replicate 8 0 ++
    leBytes 2 (cluster / 2 ^ 16) ++ List.replicate 4 0 ++ leBytes 2 (cluster % 2 ^ 16) ++
    leBytes 4 size

/-- The volume with such a root directory, the end of a chain at each of the clusters 0 to
    3, and the two bytes of `hi` in cluster 3. -/
def smallVolume (root : List UInt8) : Nat → Sector
  | 0 => Sector.load bootSector
  | 1 => Sector.load (List.replicate 16 0xff)
  | 1025 => Sector.load root
  | 1026 => Sector.load [0x68, 0x69]
  | _ => Sector.load []

/-- A reader that has one answer for each sector, and a writer without effect. -/
def constantMedium (content : Nat → Sector) : Medium Unit :=
  { read := fun sector d => (some (content sector), d), write := fun _ _ d => (true, d) }

def smallMount : Mount :=
  { writable := true, reservedSectors := 1, fatSize := 1024, totalSectors := 131072,
    firstDataSector := 1025, sectorsPerCluster := 1, clusterCount := 130047, rootCluster := 2 }

theorem geometry_small : geometry true (Sector.load bootSector).bytes = .ok smallMount := by
  decide +kernel

theorem smallVolume_opens (root : List UInt8) :
    openWithWriter (constantMedium (smallVolume root)) true ⟨(), []⟩ =
      (.ok smallMount, ⟨(), [.read 0]⟩) := by
  change (geometry true (Sector.load bootSector).bytes, _) = _
  rw [geometry_small]
  rfl

/-- A root directory with the file `A`, which has the two bytes. -/
def fileRoot : List UInt8 := plainEntry 0x41 0x20 3 2

/-- A root directory with the directory `A`, which is said to be at a cluster. -/
def directoryRoot (cluster : Nat) : List UInt8 := plainEntry 0x41 0x10 cluster 0

theorem fileRoot_plain : ∀ slot : Fin 16, byteAt ((Sector.load fileRoot).entry slot) 0 = 0 ∨
    (DirectoryEntry.decode ((Sector.load fileRoot).entry slot)).directory = false := by
  decide +kernel

theorem fileRoot_leads {c : Nat}
    (h : Leads (constantMedium (smallVolume fileRoot)) smallMount c) : c = 2 := by
  induction h with
  | root => rfl
  | @entry cluster sector lba data slot _ hs hlba hdata hlisted hdirectory ih =>
    obtain rfl := ih
    obtain rfl : sector = 0 := Nat.lt_one_iff.mp hs
    obtain rfl : 1025 = lba := Except.ok.inj hlba
    rcases hdata with ⟨_, _, hdata⟩
    obtain rfl : Sector.load fileRoot = data := Option.some.inj (congrArg Prod.fst hdata)
    rcases fileRoot_plain slot with h0 | hfile
    · exact absurd h0 hlisted.1
    · rw [hfile] at hdirectory
      exact nomatch hdirectory
  | @next cluster lba next data _ hlba hdata hnext ih =>
    obtain rfl := ih
    obtain rfl : 1 = lba := Except.ok.inj hlba
    rcases hdata with ⟨_, _, hdata⟩
    obtain rfl : Sector.load (List.replicate 16 0xff) = data :=
      Option.some.inj (congrArg Prod.fst hdata)
    exact nomatch hnext

end Fat32

end Norx
