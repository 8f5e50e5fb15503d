import Norx.Lib.Run
import Norx.Wasm.Interp

/-!
# Cancelling an Instance

`cancel` closes three doors: `run` refuses to start, the memory refuses every
access, and the handle table is emptied. The first two stay closed. The third
does not, because `insert_handle` asks neither the flag nor the memory: after a
`cancel` it fills a slot again, and the handle it returns is valid.

## Theorems

* `cancel_final_iff`: A cancelled instance stays so for good exactly if no
  handle is inserted.
* `cancel_undone`: A handle that is valid in a cancelled instance.
-/

namespace Norx

namespace Wasm

/-- Put the value into the first free slot, and return the slot as the handle. -/
def HandleTable.insert (t : HandleTable) (value : BitVec 32) : Option (BitVec 32) × HandleTable :=
  match t.slots.position Option.isNone with
  | none => (none, t)
  | some index => (some (BitVec.ofNat 32 index), ⟨t.slots.set index (some value)⟩)

def HandleTable.valid (t : HandleTable) (handle : BitVec 32) : Bool :=
  (t.slots.get handle.toNat).isSome

def HandleTable.revokeAll : HandleTable := ⟨Slots.replicate maxHandles none⟩

def LinearMemory.revoke (memory : LinearMemory) : LinearMemory := { memory with live := false }

def Instance.cancel (i : Instance) : Instance :=
  { i with cancelled := true, memory := i.memory.revoke, handles := HandleTable.revokeAll }

def Instance.insertHandle (i : Instance) (value : BitVec 32) : Option (BitVec 32) × Instance :=
  let (handle, handles) := i.handles.insert value
  (handle, { i with handles })

/-- A call the owner of an instance can make. Every run brings its own host. -/
inductive Call : Type 1 where
  | run {σ : Type} (host : Host σ) (state : σ) (fuel : Nat)
  | insertHandle (value : BitVec 32)
  | cancel

def Instance.step (i : Instance) : Call → Instance
  | .run host state fuel => (i.run host state fuel).2.1
  | .insertHandle value => (i.insertHandle value).2
  | .cancel => i.cancel

/-- What the first two doors being closed means: a run touches neither the host
    nor the instance, and no access to the memory is let through. -/
structure Instance.Closed (i : Instance) : Prop where
  run_refused : ∀ {σ : Type} (host : Host σ) (state : σ) (fuel : Nat),
    i.run host state fuel = (.error .cancelled, i, state)
  memory_refused : ∀ address offset length : Nat,
    i.memory.range address offset length = .error .cancelled
  load_refused : ∀ address offset : Nat, i.memory.loadI32 address offset = .error .cancelled
  store_refused : ∀ (address offset : Nat) (value : BitVec 32),
    i.memory.storeI32 address offset value = .error .cancelled

/-- No handle is valid in the instance, and the rest of it is closed. -/
def Instance.Final (i : Instance) : Prop :=
  i.Closed ∧ ∀ handle, i.handles.valid handle = false

/-- The flag and the memory as `cancel` leaves them. -/
def Instance.Cancelled (i : Instance) : Prop := i.cancelled = true ∧ i.memory.live = false

theorem Instance.Cancelled.closed {i : Instance} (h : i.Cancelled) : i.Closed where
  run_refused host state fuel := by simp [Instance.run, Instance.start, h.1]
  memory_refused address offset length := by simp [LinearMemory.range, h.2]
  load_refused address offset := by simp [LinearMemory.loadI32, LinearMemory.range, h.2]
  store_refused address offset value := by simp [LinearMemory.storeI32, LinearMemory.range, h.2]

theorem Instance.Cancelled.step {i : Instance} (h : i.Cancelled) (c : Call) :
    (i.step c).Cancelled := by
  cases c with
  | run host state fuel =>
    simp only [Instance.step, h.closed.run_refused]
    exact h
  | insertHandle value => exact h
  | cancel => exact ⟨rfl, rfl⟩

theorem valid_revokeAll (handle : BitVec 32) : HandleTable.revokeAll.valid handle = false :=
  congrArg Option.isSome (Slots.get_replicate_default handle.toNat)

/-- An inserted handle is valid: an empty table has a slot for it. -/
theorem valid_insert {t : HandleTable} (h : ∀ handle, t.valid handle = false) (value : BitVec 32) :
    (t.insert value).2.valid 0 = true := by
  have hfree : t.slots.position Option.isNone = some 0 := by
    have h0 := h 0
    simp only [HandleTable.valid, Option.isSome_eq_false_iff] at h0
    exact Slots.position_eq_some.mpr ⟨by decide, h0, by simp⟩
  simp [HandleTable.insert, HandleTable.valid, hfree,
    Slots.get_set_self _ _ (by decide : 0 < maxHandles)]

/-- After a `cancel`, whatever calls follow, every run is refused and every
    access to the memory too; and no handle is ever valid exactly if none is
    inserted. -/
theorem cancel_final_iff (i : Instance) (calls : List Call) :
    (∀ n, (run Instance.step i.cancel (calls.take n)).Closed) ∧
      ((∀ n, (run Instance.step i.cancel (calls.take n)).Final) ↔
        ∀ c ∈ calls, ∀ value, c ≠ .insertHandle value) := by
  have hcancel : i.cancel.Cancelled := ⟨rfl, rfl⟩
  refine ⟨fun n => (run_keeps _ (fun _ c h => h.step c) _ hcancel).closed, ?_⟩
  -- Only an insertion fills a slot, and in an empty table it always finds one.
  rw [← obeys_iff_mem Instance.step (fun c => ∀ value, c ≠ .insertHandle value)]
  refine run_good_iff _ _ (fun i => i.Cancelled ∧ ∀ handle, i.handles.valid handle = false) _
    (fun i h => ⟨h.1.closed, h.2⟩) ?_ ?_ calls i.cancel ⟨hcancel, valid_revokeAll⟩
  · intro i c hi hc
    refine ⟨hi.1.step c, ?_⟩
    cases c with
    | run host state fuel =>
      simp only [Instance.step, hi.1.closed.run_refused]
      exact hi.2
    | insertHandle value => exact absurd rfl (hc value)
    | cancel => exact valid_revokeAll
  · intro i c hi hc hfinal
    simp only [not_forall, not_not] at hc
    rcases hc with ⟨value, rfl⟩
    exact Bool.false_ne_true ((hfinal.2 0).symm.trans (valid_insert hi.2 value))

/-- The first handle inserted after a cancellation is valid. -/
theorem cancel_undone :
    (run Instance.step (Instance.new bareModule).cancel [.insertHandle 7]).handles.valid 0 = true :=
  by decide

end Wasm

end Norx
