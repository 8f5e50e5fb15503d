import Norx.Dynamic.Safety

/-!
# Counting Symbols by the Hash Table

A GNU hash table does not say how many symbols there are. It has the first symbol of
each bucket and a word for every symbol from `symbolOffset` on, and the last symbol of
a bucket is the one whose word is odd. So there are as many symbols as the chain that
goes furthest says; and if there is no chain, the symbols are those that are not
hashed, below `symbolOffset`.

`gnu_symbol_count` starts from zero. It returns what the chains say, which is not
below `symbolOffset` if there is one. Without a chain it returns zero, and every
relocation that names a symbol is rejected.

## Main definitions

* `GnuTable`: A hash table, `GnuTable.At` where it is and `GnuTable.WellFormed`.
* `GnuTable.symbolCount`: The number of symbols it implies.

## Theorems

* `gnu_symbol_count_iff`: When the number is the one returned.
* `unhashed_symbol_rejected`: A table without a chain.
-/

namespace Norx

namespace Dynamic

open List

open Checked (require reject)
open Elf (LoadPlan)

/-- A hash table: its buckets, with zero for an empty one, and the words of the
    symbols. -/
structure GnuTable where
  symbolOffset : Nat
  bloomSize : Nat
  buckets : List Nat
  chains : List Nat

namespace GnuTable

/-- Where the buckets start, from the address of the table. -/
def bucketsOffset (t : GnuTable) : Nat := 16 + t.bloomSize * 8

/-- The last symbol of the chain that starts at a symbol. -/
def lastOf (t : GnuTable) (first : Nat) : Nat :=
  first + (t.chains.drop (first - t.symbolOffset)).findIdx fun word => word % 2 ≠ 0

/-- One more than the last symbol of any chain. -/
def reached (t : GnuTable) : Nat :=
  ((t.buckets.filter (· ≠ 0)).map fun first => t.lastOf first + 1).foldr max 0

/-- The number of symbols the table implies. -/
def symbolCount (t : GnuTable) : Nat := max t.symbolOffset t.reached

/-- Within the limits, with chains that start at a hashed symbol and end. The symbol
    zero is never hashed. -/
structure WellFormed (t : GnuTable) : Prop where
  hashed : 0 < t.symbolOffset
  buckets : t.buckets.length ≤ maxGnuHashBuckets
  bloom : 0 < t.bloomSize ∧ t.bloomSize ≤ maxGnuHashBloom
  symbols : t.chains.length ≤ maxSymbols
  chains : ∀ first ∈ t.buckets, first = 0 ∨ t.symbolOffset ≤ first ∧
    ∃ word ∈ t.chains.drop (first - t.symbolOffset), word % 2 ≠ 0

end GnuTable

/-- The image has the word at the address. -/
def WordAt (image : List UInt8) (plan : LoadPlan) (address value : Nat) : Prop :=
  ∃ bytes, fileSliceAt image plan address 4 = .ok bytes ∧ Elf.word bytes 0 4 = value

/-- The image has the table at the address. -/
structure GnuTable.At (image : List UInt8) (plan : LoadPlan) (address : Nat) (t : GnuTable) :
    Prop where
  header : ∃ header, fileSliceAt image plan address 16 = .ok header ∧
    Elf.word header 0 4 = t.buckets.length ∧ Elf.word header 4 4 = t.symbolOffset ∧
    Elf.word header 8 4 = t.bloomSize
  whole : ∃ bytes, fileSliceAt image plan address (t.bucketsOffset + t.buckets.length * 4)
    = .ok bytes
  buckets : ∀ i (h : i < t.buckets.length),
    WordAt image plan (address + (t.bucketsOffset + i * 4)) t.buckets[i]
  chains : ∀ i (h : i < t.chains.length),
    WordAt image plan (address + t.bucketsOffset + t.buckets.length * 4 + i * 4) t.chains[i]

variable {image : List UInt8} {plan : LoadPlan} {address size value : Nat}

/-! ### Reading words -/

variable {bytes : List UInt8}

theorem fileSliceAt_ok (h : fileSliceAt image plan address size = .ok bytes) :
    address + size < 2 ^ 64 ∧ bytes.length = size := by
  refine ⟨?_, (fileSliceAt_ends address size).of_ok h⟩
  rcases except_bind_ok h with ⟨start, hstart, h⟩
  rcases except_bind_ok h with ⟨offset, hoffset, -⟩
  have hbase : address ≤ start :=
    (ends_rebase (Q := (address ≤ ·)).mpr fun _ _ => Nat.le_add_left _ _).of_ok hstart
  cases hfound : plan.fileOffset start size with
  | none =>
    rw [hfound] at hoffset
    cases hoffset
  | some found =>
    rcases Option.bind_eq_some_iff.mp hfound with ⟨end_, hend, -⟩
    rcases Usize.checkedAdd_eq_some.mp hend with ⟨rfl, hfits⟩
    omega

theorem readU32_ok {offset : Nat} (h : offset + 4 ≤ bytes.length) (hfits : offset + 4 < 2 ^ 64)
    (hvalue : Elf.word bytes offset 4 = value) :
    readU32 bytes offset = .ok value ∧ value < 2 ^ 32 := by
  constructor
  · rw [readU32, readLe, Checked.add, if_pos hfits, except_ok_bind, getRange,
      if_pos ⟨Nat.le_add_right _ _, h⟩, Nat.add_sub_cancel_left, ← hvalue]
    rfl
  · rw [← hvalue]
    exact (leNat_lt _).trans_le (Nat.pow_le_pow_right (by decide) (length_take_le 4 _))

theorem WordAt.read (h : WordAt image plan address value) :
    address < 2 ^ 64 ∧ ∃ bytes, fileSliceAt image plan address 4 = .ok bytes ∧
      readU32 bytes 0 = .ok value ∧ value < 2 ^ 32 := by
  rcases h with ⟨bytes, hbytes, hvalue⟩
  rcases fileSliceAt_ok hbytes with ⟨hfits, hlen⟩
  exact ⟨by omega, bytes, hbytes, readU32_ok (by omega) (by decide) hvalue⟩

/-! ### The count -/

variable {t : GnuTable}

section Count

variable (ht : t.WellFormed) (hat : t.At image plan address) (hoffset : t.symbolOffset < 2 ^ 32)

include ht hat hoffset

/-- The words still to come decide where the chain ends. -/
theorem gnuChain_exact {words : List Nat} : ∀ {fuel index : Nat} (count : Nat),
    t.symbolOffset ≤ index → t.chains.drop (index - t.symbolOffset) = words →
    words.length < fuel → (∃ word ∈ words, word % 2 ≠ 0) →
      gnuChain image plan (address + t.bucketsOffset + t.buckets.length * 4) t.symbolOffset fuel
        index count = .ok (max count (index + words.findIdx (fun word => word % 2 ≠ 0) + 1)) := by
  induction words with
  | nil => exact fun _ _ _ _ h => nomatch h
  | cons word words ih =>
    intro fuel index count hindex hwords hfuel hodd
    obtain ⟨fuel, rfl⟩ : ∃ k, fuel = k + 1 := ⟨fuel - 1, by omega⟩
    have hlt : index - t.symbolOffset < t.chains.length := by
      by_contra hge
      rw [drop_of_length_le (by omega)] at hwords
      cases hwords
    have hlimit := ht.symbols
    have hmax : maxSymbols = 256 := rfl
    rw [drop_eq_getElem_cons hlt] at hwords
    injection hwords with hword hrest
    rcases (hat.chains _ hlt).read with ⟨hfits, bytes, hbytes, hread, -⟩
    rw [hword] at hread
    rw [gnuChain]
    simp (disch := omega) only [require, reject, Usize.checkedMul, Usize.checkedAdd, if_pos, if_neg,
      except_ok_bind, hbytes, hread]
    rw [Nat.min_eq_left (by omega), findIdx_cons]
    by_cases hend : word % 2 ≠ 0
    · rw [if_pos hend, decide_eq_true hend]
      rfl
    · rw [if_neg hend, decide_eq_false hend, ih _ (by omega) (by rw [← hrest]; congr 1; omega)
        (Nat.lt_of_succ_lt_succ hfuel) ?_]
      · congr 1
        dsimp only [cond]
        omega
      · rcases hodd with ⟨w, hw, hodd⟩
        rcases mem_cons.mp hw with rfl | hw
        · exact absurd hodd hend
        · exact ⟨w, hw, hodd⟩

theorem gnuBucket_exact (count : Nat) {i : Nat} (hi : i < t.buckets.length) :
    gnuBucket image plan address t.bucketsOffset (address + t.bucketsOffset + t.buckets.length * 4)
      t.symbolOffset count i
      = .ok (if decide (t.buckets[i] ≠ 0) = true then max count (t.lastOf t.buckets[i] + 1)
          else count) := by
  rcases (hat.buckets i hi).read with ⟨hfits, bytes, hbytes, hread, hsmall⟩
  have hlimit := ht.symbols
  have hhashed := ht.hashed
  simp (disch := omega) only [gnuBucket, Checked.mul, Checked.add, usizeFrom, tryFrom, if_pos, hbytes,
    hread, except_ok_bind, pure_bind]
  rcases ht.chains _ (getElem_mem hi) with hzero | ⟨hfirst, hodd⟩
  · rw [if_pos (by omega), hzero]
    rfl
  · rw [if_neg (by omega), if_pos (decide_eq_true (by omega)), gnuChain_exact ht hat hoffset count hfirst rfl ?_ hodd]
    · rfl
    · rw [length_drop]
      omega

omit hoffset in
theorem gnuSymbolCount_exact : gnuSymbolCount image plan address = .ok t.reached := by
  rcases hat.header with ⟨header, hheader, hcount, hoffset, hbloom⟩
  rcases hat.whole with ⟨whole, hwhole⟩
  have hfits := (fileSliceAt_ok hwhole).1
  have hlen := (fileSliceAt_ok hheader).2
  rcases readU32_ok (by omega) (by omega) hcount with ⟨hread, hlt⟩
  rcases readU32_ok (by omega) (by omega) hoffset with ⟨hread', hlt'⟩
  rcases readU32_ok (by omega) (by omega) hbloom with ⟨hread'', hlt''⟩
  have hbuckets := ht.buckets
  have hsize := ht.bloom
  have hstart : 16 + t.bloomSize * 8 = t.bucketsOffset := rfl
  simp (disch := omega) only [gnuSymbolCount, hheader, hread, hread', hread'', usizeFrom, tryFrom,
    reject, require, Usize.checkedMul, Usize.checkedAdd, if_pos, if_neg, hstart, hwhole,
    Option.bind_some, except_ok_bind, pure_bind]
  -- after each bucket the count is that of the buckets so far
  have hfold (k : Nat) (hk : k ≤ t.buckets.length) :
      (List.range k).foldlM (gnuBucket image plan address t.bucketsOffset
        (address + t.bucketsOffset + t.buckets.length * 4) t.symbolOffset) 0
      = .ok ((t.buckets.take k).foldl (fun count first =>
          if decide (first ≠ 0) = true then max count (t.lastOf first + 1) else count) 0) := by
    induction k with
    | zero => rfl
    | succ k ih =>
      rw [range_succ, foldlM_append, ih (by omega), except_ok_bind,
        foldlM_cons, gnuBucket_exact ht hat hlt' _ hk, take_succ_eq_append_getElem hk,
        foldl_concat]
      rfl
  rw [hfold _ (le_refl _), take_length, ← foldl_filter, ← foldl_map,
    foldl_eq_foldr]
  rfl

omit hat hoffset in
/-- A chain goes beyond the symbols that are not hashed. -/
theorem reached_of_chain {first : Nat} (hfirst : first ∈ t.buckets) (hne : first ≠ 0) :
    t.symbolOffset < t.reached := by
  have hlast : t.symbolOffset < t.lastOf first + 1 := by
    rcases ht.chains first hfirst with hzero | ⟨hle, -⟩
    · exact absurd hzero hne
    · exact Nat.lt_succ_of_le (hle.trans (Nat.le_add_right _ _))
  refine hlast.trans_le (le_max_of_le' 0 (mem_map_of_mem ?_) (le_refl _))
  exact mem_filter.mpr ⟨hfirst, decide_eq_true hne⟩

end Count

/-- Of a well-formed table within the limits the symbols counted are those that the
    chains reach. They are the ones the table implies exactly if some bucket is not
    empty, and then no symbol below the hashed ones fails the check of a
    relocation. -/
theorem gnu_symbol_count_iff (image : List UInt8) (plan : LoadPlan) (address : Nat) (t : GnuTable)
    (ht : t.WellFormed) (hat : t.At image plan address) :
    ∃ count, gnuSymbolCount image plan address = .ok count ∧
      (count = t.symbolCount ↔ ∃ first ∈ t.buckets, first ≠ 0) ∧
      (count = t.symbolCount → ∀ symbol < t.symbolOffset, ¬ (count ≤ symbol ∧ symbol ≠ 0)) := by
  have hle : t.reached = t.symbolCount → t.symbolOffset ≤ t.reached := fun h =>
    h ▸ Nat.le_max_left _ _
  refine ⟨t.reached, gnuSymbolCount_exact ht hat, ⟨fun hcount => ?_, ?_⟩,
    fun hcount symbol hsymbol hrejected => ?_⟩
  · by_contra hempty
    have hnone : t.buckets.filter (· ≠ 0) = [] := by simpa using hempty
    have hzero := hle hcount
    rw [GnuTable.reached, hnone] at hzero
    exact absurd ht.hashed (Nat.not_lt.mpr hzero)
  · rintro ⟨first, hfirst, hne⟩
    exact (Nat.max_eq_right (reached_of_chain ht hfirst hne).le).symm
  · exact absurd ((hle hcount).trans hrejected.1) (Nat.not_le.mpr hsymbol)

/-- A table of one bucket, with three symbols that are not hashed. -/
def smallTable (first : Nat) : GnuTable :=
  { symbolOffset := 3, bloomSize := 1, buckets := [first], chains := [1] }

def tableImage (first : Nat) : List UInt8 :=
  leBytes 4 1 ++ leBytes 4 3 ++ leBytes 4 1 ++ leBytes 4 0 ++ leBytes 8 0 ++ leBytes 4 first ++
    leBytes 4 1

def tablePlan : LoadPlan :=
  { base := 0, entry := 0, segmentCount := 1, totalPages := 1
    segments := (Slots.replicate _ none).set 0 (some
      { virtualStart := 0, virtualEnd := 32, fileOffset := 0, fileSize := 32, memorySize := 32
        zeroFill := 0, flags := .fromRaw 4 }) }

theorem smallTable_ok {first : Nat} (h : first = 0 ∨ first = 3) :
    (smallTable first).WellFormed ∧ (smallTable first).At (tableImage first) tablePlan 0 := by
  rcases h with rfl | rfl
  all_goals
    refine ⟨⟨by decide, by decide, by decide, by decide, by decide⟩,
      ⟨_, rfl, by decide, by decide, by decide⟩, ⟨_, rfl⟩, fun i hi => ?_, fun i hi => ?_⟩
    · obtain rfl : i = 0 := Nat.lt_one_iff.mp hi
      exact ⟨_, rfl, rfl⟩
    · obtain rfl : i = 0 := Nat.lt_one_iff.mp hi
      exact ⟨_, rfl, rfl⟩

theorem gnu_symbol_count_iff_small :
    ∃ count, gnuSymbolCount (tableImage 3) tablePlan 0 = .ok count ∧ count = 4 := by
  rcases smallTable_ok (.inr rfl) with ⟨ht, hat⟩
  rcases gnu_symbol_count_iff _ _ _ _ ht hat with ⟨count, hcount, hiff, -⟩
  exact ⟨count, hcount, hiff.mpr ⟨3, by decide, by decide⟩⟩

/-- Without a chain none of the three symbols is counted, and a relocation against one of
    them is rejected. -/
theorem unhashed_symbol_rejected :
    (smallTable 0).WellFormed ∧ (smallTable 0).At (tableImage 0) tablePlan 0 ∧
      gnuSymbolCount (tableImage 0) tablePlan 0 = .ok 0 ∧ (smallTable 0).symbolCount = 3 ∧
      readRelocation tablePlan .x86_64 0 (leBytes 8 0 ++ leBytes 8 (2 ^ 32 + 1) ++ leBytes 8 0)
        = .error (.error .invalidSymbolIndex) :=
  ⟨(smallTable_ok (.inl rfl)).1, (smallTable_ok (.inl rfl)).2, by decide +kernel, by decide,
    by decide +kernel⟩

end Dynamic

end Norx
