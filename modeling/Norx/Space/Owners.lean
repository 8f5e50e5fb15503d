import Norx.Space.Ledger

/-!
# One Owner for Each Frame

Along every run of calls on any number of spaces, a frame is on the returned
list once, or the root, a page or a table of one space that is not destroyed,
and never two of these. That holds as long as `destroy` is called only on
spaces whose pages all fit on the returned list, or none of them does. Where
some fit and some do not, `destroy` gives back the first ones, is refused the
next one, and returns with the pages all still recorded; the first page is then
on the list and in the space, and the next space to ask for a frame gets it.

## Main definitions

* `Kept`: The account of a world along a run.

## Theorems

* `perform_ledger`: What an operation leaves of the account.
* `step_accounts`: What a call leaves of it.
* `single_owner_iff`: The frames have one owner along a run exactly if its calls
  meet the condition.
-/

namespace Norx

namespace Space

open Fallible Memory

/-! ### An operation -/

/-- What the records of a destroyed space say. -/
def Gone (space : AddressSpace) : Prop :=
  space.rootFrame = none → space.mappings = Slots.replicate maxMappings none

variable {space : AddressSpace}

theorem Gone.of_live (h : space.rootFrame ≠ none) : Gone space :=
  fun hnone => absurd hnone h

variable {space' : AddressSpace}

theorem TablesOnly.gone (h : TablesOnly space space') (hgone : Gone space) : Gone space' := by
  rcases h with ⟨tables, rfl⟩
  exact hgone

variable {virtualAddress : Nat} {target : Machine}

theorem Mapped.gone {flags : PageFlags} {kind : MappingKind} {mapping : MappingInfo}
    (h : Mapped target virtualAddress flags kind space mapping space') :
    Gone space' :=
  Gone.of_live (by rw [h.root]; exact h.live)

theorem Unmapped.gone (h : Unmapped virtualAddress space space') (hgone : Gone space) :
    Gone space' := by
  rcases h with ⟨slot, hslot, rfl⟩
  -- A destroyed space has no page to take out.
  refine Gone.of_live fun hnone => ?_
  have hmaps := (Slots.position_eq_some.mp hslot).2.1
  rw [hgone hnone, Slots.get_replicate _ (Slots.position_eq_some.mp hslot).1] at hmaps
  exact Bool.false_ne_true hmaps

theorem Change.gone (h : Change target space space') (hgone : Gone space) : Gone space' := by
  cases h with
  | tables h | unmapped _ _ h | activated _ h => exact h.gone hgone
  | mapped h => exact h.gone
  | stack _ _ _ h₂ => exact h₂.gone
  | torn _ h htables => exact htables.gone h.gone
  | grown _ _ h => exact h.gone
  | stopped => exact hgone
  | emptied => exact fun _ => rfl
  | destroyed => exact fun _ => rfl

/-- Whether an operation may have lost a frame, from what it left: for want of a
    place for a table, or of room on the returned list. -/
def Loses (target : Machine) (e e' : Env) : SpaceCall → Prop
  | .mapAnonymous .. | .mapStack | .growStack _ =>
    target = .x86_64 ∧ e'.space.tableFrames.entries.length = maxTableFrames
  | .activate => e'.space.active = false ∧ ((target = .x86_64 ∧ maxTableFrames <
      e.space.tableFrames.entries.length + 3 * e.space.mappings.entries.length) ∨
        e'.frames.state.returnedCount = maxReturnedFrames)
  | .destroy => ¬ Fits e
  | _ => False

variable {info : BootInfo} {target : Machine} {others lost : List UInt64}

/-- What an operation leaves of the account. -/
theorem perform_ledger (target : Machine) (call : SpaceCall) {e : Env} (h : Ledger info others lost e)
    (hgone : Gone e.space) (hroom : call = .destroy → e.space.rootFrame ≠ none → Room e) :
    ∃ extra, Ledger info others (extra ++ lost) (perform target call e).2 ∧
      (extra ≠ [] → Loses target e (perform target call e).2 call) := by
  have hkeep {e' : Env} {call : SpaceCall} (hledger : Ledger info others lost e') :
      ∃ extra, Ledger info others (extra ++ lost) e' ∧ (extra ≠ [] → Loses target e e' call) :=
    ⟨[], hledger, fun hne => absurd rfl hne⟩
  refine of_wp (P := fun e' : Env => ∃ extra, Ledger info others (extra ++ lost) e' ∧
    (extra ≠ [] → Loses target e e' call)) ?_
  cases call with
  | mapAnonymous virtualAddress flags =>
    exact (wp_bind _ _ _ _ _).mpr (wp_post (mapPage_ledger h virtualAddress flags .anonymous)
      (fun _ _ h' => hkeep h'))
  | mapStack => exact wp_post (mapStack_ledger h) (fun _ _ h' => hkeep h')
  | growStack faultAddress =>
    exact (wp_bind _ _ _ _ _).mpr (wp_post (growStack_ledger h faultAddress)
      (fun _ _ h' => hkeep h'))
  | unmapPage virtualAddress =>
    by_cases hlive : e.space.rootFrame = none
    · -- A destroyed space has no pages, so the first check refuses.
      change wp (unmapPage target virtualAddress) _ _ e
      unfold unmapPage
      rw [wp_bind, wp_lookup]
      refine ⟨fun mapping hmapping => ?_, fun _ => hkeep h⟩
      rw [AddressSpace.mapping, hgone hlive] at hmapping
      cases hmapping
    · exact wp_mono (unmapPage_ledger h hlive virtualAddress) (fun _ _ h' => hkeep h')
        fun _ _ h' => hkeep h'
  | activate => exact wp_post (activate_ledger h) (fun _ _ h' => hkeep h')
  | destroy =>
    refine wp_mono (destroy_ledger h (hroom rfl)) (fun _ e' h' => ?_) fun _ e' h' => ?_
    all_goals rcases h' with ⟨extra, hledger, hfits⟩
    all_goals exact ⟨extra, hledger, fun hne hf => hne (hfits hf)⟩
  | load virtualAddress bytes =>
    refine wp_mono (load_effect virtualAddress bytes) (fun _ e' h' => ?_) fun _ e' h' => ?_
    all_goals rcases h' with ⟨hardware, rfl⟩
    all_goals exact hkeep h
  | loadWords virtualAddress words =>
    refine wp_mono (loadWords_effect virtualAddress words) (fun _ e' h' => ?_) fun _ e' h' => ?_
    all_goals rcases h' with ⟨hardware, rfl⟩
    all_goals exact hkeep h
  | store address byte =>
    refine wp_mono (store_effect address byte) (fun _ e' h' => ?_) fun _ e' h' => ?_
    all_goals rcases h' with ⟨hardware, rfl⟩
    all_goals exact hkeep h

/-! ### The world -/

section Lists

variable {α β : Type} (f : α → List β) (l : List α) {i : Nat} {a : α}

/-- What one element of a list brings, and the others. -/
theorem flatMap_perm_eraseIdx (h : l[i]? = some a) :
    (l.flatMap f).Perm ((l.eraseIdx i).flatMap f ++ f a) := by
  obtain ⟨hi, rfl⟩ := List.getElem?_eq_some_iff.mp h
  have hsplit : l = l.take i ++ l[i] :: l.drop (i + 1) := by
    rw [List.getElem_cons_drop, List.take_append_drop]
  have hflat : l.flatMap f = (l.take i).flatMap f ++ (f l[i] ++ (l.drop (i + 1)).flatMap f) := by
    rw [← List.flatMap_cons, ← List.flatMap_append, ← hsplit]
  rw [hflat, List.eraseIdx_eq_take_drop_succ, List.flatMap_append, List.append_assoc]
  exact List.perm_append_comm.append_left _

theorem flatMap_set_perm (h : i < l.length) (b : α) :
    ((l.set i b).flatMap f).Perm ((l.eraseIdx i).flatMap f ++ f b) := by
  have hget : (l.set i b)[i]? = some b := List.getElem?_set_self h
  have hperm := flatMap_perm_eraseIdx f (l.set i b) hget
  rwa [List.eraseIdx_set_eq] at hperm

end Lists

namespace World

/-- The frames of all spaces. -/
def owned (w : World) : List UInt64 := w.spaces.flatMap AddressSpace.owned

/-- No frame is in two places: on the returned list, or a root, page or table of
    a space that is not destroyed. -/
def SingleOwner (w : World) : Prop := (w.frames.returned ++ w.owned).Nodup

instance (w : World) : Decidable w.SingleOwner := inferInstanceAs (Decidable (List.Nodup _))

/-- The frames of the other spaces. -/
def besides (w : World) (index : Nat) : List UInt64 :=
  (w.spaces.eraseIdx index).flatMap AddressSpace.owned

end World

/-- The account of a world: where its frames are, and that destroyed spaces have
    no pages. -/
structure Accounted (info : BootInfo) (lost : List UInt64) (w : World) : Prop where
  accounts : Accounts info w.owned lost w.frames
  gone : ∀ space ∈ w.spaces, Gone space

variable {w : World}

theorem Accounted.focus (h : Accounted info lost w) {index : Nat}
    (hspace : w.spaces[index]? = some space) :
    Ledger info (w.besides index) lost (w.env space) :=
  h.accounts.shift ((flatMap_perm_eraseIdx _ _ hspace).append_left lost).symm

theorem Accounted.put {index : Nat} (hspace : w.spaces[index]? = some space)
    (hgone : ∀ space ∈ w.spaces, Gone space) {e : Env} (h : Ledger info (w.besides index) lost e)
    (he : Gone e.space) : Accounted info lost (w.put index e) := by
  obtain ⟨hindex, rfl⟩ := List.getElem?_eq_some_iff.mp hspace
  refine ⟨h.shift ((flatMap_set_perm _ _ hindex e.space).append_left lost), fun space hmem => ?_⟩
  rcases List.mem_or_eq_of_mem_set hmem with hmem | rfl
  · exact hgone space hmem
  · exact he

/-- The condition on a call: a space is destroyed only if the returned list takes
    all its pages, or none. -/
def PagesFit (w : World) : Call → Prop
  | .on index .destroy => ∀ space, w.spaces[index]? = some space → space.rootFrame ≠ none →
      Room (w.env space)
  | _ => True

/-- A new space takes one frame, for its root. -/
theorem new_eq (target : Machine) (owner : Process.ProcessId) (aslr : AslrHook) (h : Held) :
    new target owner aslr h = (match h.take.1 with
      | some root => .ok (AddressSpace.fresh target owner aslr root)
      | none => .error .noFrames, h.take.2) := by
  unfold new
  simp only [bind, andThen, act, lookup]
  cases h.take.1 with
  | none => rfl
  | some root => rfl

theorem new_accounts (h : Accounted info lost w) (owner : Process.ProcessId) (aslr : AslrHook) :
    Accounted info lost (w.add (new target owner aslr w.frames)) := by
  rw [new_eq]
  cases hfound : w.frames.take.1 with
  | none => exact ⟨h.accounts.exhausted (take_none h.accounts.safe hfound), h.gone⟩
  | some root =>
    have htaken := h.accounts.taken (take_some h.accounts.safe hfound)
    refine ⟨htaken.record ?_, fun space hmem => ?_⟩
    · change (List.flatMap AddressSpace.owned (w.spaces ++ [_])).Perm _
      rw [List.flatMap_append, List.flatMap_singleton]
      exact List.perm_append_singleton root w.owned
    · rcases List.mem_append.mp hmem with hmem | hmem
      · exact h.gone space hmem
      · rw [List.mem_singleton.mp hmem]
        exact Gone.of_live nofun

/-- What a call leaves of the account. -/
theorem step_accounts (h : ∃ lost, Accounted info lost w) {call : Call} (hok : PagesFit w call) :
    ∃ lost, Accounted info lost (step target w call) := by
  rcases h with ⟨lost, h⟩
  cases call with
  | new owner aslr => exact ⟨lost, new_accounts h owner aslr⟩
  | on index call =>
    cases hspace : w.spaces[index]? with
    | none =>
      refine ⟨lost, ?_⟩
      simp only [step, hspace]
      exact h
    | some space =>
      have hgone := h.gone space (List.mem_of_getElem? hspace)
      rcases perform_ledger target call (h.focus hspace) hgone
        (fun hcall => by subst hcall; exact hok space hspace) with ⟨extra, hledger, _⟩
      refine ⟨extra ++ lost, ?_⟩
      simp only [step, hspace]
      exact Accounted.put hspace h.gone hledger ((perform_change target call _).gone hgone)

/-- Nothing is handed out at the start. -/
theorem accounted_start {s : Memory.State} (h : Carved info s) (hardware : Hardware) :
    Accounted info [] (World.start s hardware) :=
  ⟨⟨safe_carved h, List.Perm.nil⟩, nofun⟩

/-- A call against the condition leaves a page of its space on the returned list
    and recorded. -/
theorem not_singleOwner (h : Accounted info lost w) {call : Call} (hnot : ¬ PagesFit w call) :
    ¬ (step target w call).SingleOwner := by
  cases call with
  | new owner aslr => exact absurd trivial hnot
  | on index call =>
    cases call with
    | destroy =>
      rw [PagesFit] at hnot
      simp only [not_forall] at hnot
      rcases hnot with ⟨space, hspace, hlive, hroom⟩
      obtain ⟨root, hroot⟩ := Option.ne_none_iff_exists'.mp hlive
      have htorn := destroy_torn target (h.focus hspace) hroot hroom
      have hleft := of_wp (P := fun e' : Env => e'.space = { space with active := false } ∧
        ∃ frame ∈ space.mapped, frame ∈ e'.frames.returned)
        (wp_post htorn (fun _ _ hfalse => hfalse.elim))
      rcases hleft with ⟨hsame, frame, hmapped, hreturned⟩
      simp only [step, hspace]
      intro hsingle
      -- The frame is on the list and among the pages of the space put back.
      refine (List.nodup_append.mp hsingle).2.2 frame hreturned frame ?_ rfl
      refine List.mem_flatMap.mpr ⟨(destroy target (w.env space)).2.space,
        List.mem_set (List.getElem?_eq_some_iff.mp hspace).1 _, ?_⟩
      rw [hsame, owned_of_root { space with active := false } hroot]
      exact List.mem_cons_of_mem _ (List.mem_append_left _ hmapped)
    | _ => exact absurd trivial hnot

/-- Along every run, a frame is in one place only exactly if every `destroy` of
    the run finds room on the returned list for all pages of the space or for
    none. -/
theorem single_owner_iff (target : Machine) (info : BootInfo) (s : Memory.State)
    (hardware : Hardware) :
    ∃ s', (∀ fuel, 2 ^ 64 ≤ fuel → init fuel info s = some (summary info s', s')) ∧
      ∀ calls, (∀ k, (run (step target) (World.start s' hardware) (calls.take k)).SingleOwner) ↔
        Obeys (step target) PagesFit (World.start s' hardware) calls := by
  rcases init_carved info s with ⟨s', hcarved, hinit⟩
  refine ⟨s', hinit, fun calls => ?_⟩
  refine run_good_iff (step target) PagesFit (fun w => ∃ lost, Accounted info.effective lost w)
    World.SingleOwner (fun w hw => ?_) (fun w call hw hok => step_accounts hw hok)
    (fun w call hw hnot => ?_) calls _ ⟨[], accounted_start hcarved hardware⟩
  · rcases hw with ⟨lost, hw⟩
    exact hw.accounts.nodup
  · rcases hw with ⟨lost, hw⟩
    exact not_singleOwner hw hnot

/-- A memory map of one region. -/
def plain : BootInfo :=
  { memory := [⟨0x100000, 0x100000⟩], memoryLen := 1, reserved := [], reservedLen := 0 }

/-- Memory of zeros, with the direct map set up. -/
def blank : Hardware :=
  { memory := fun _ => 0, tableBase := 0, directMapReady := true, kernelTableBase := 0 }

/-- A run from the start on that memory, and what is looked at in the end. -/
def after {α : Type} (target : Machine) (calls : List Call) (f : World → α) : Option α :=
  (init 2 plain State.initial).map fun r => f (run (step target) (World.start r.2 blank) calls)

/-- Map some pages, one after the other. -/
def mapPages (index pages : Nat) : List Call :=
  (List.range pages).map fun page => .on index (.mapAnonymous (0x400000 + page * 0x1000) .userRw)

/-- Fifteen spaces, with eight pages each but for the last, are made and
    destroyed. They leave room for one frame on the returned list. -/
def filling (first : Nat) : List Call :=
  List.replicate 15 (.new .init ⟨0⟩) ++
    (List.range 14).flatMap (fun index => mapPages (first + index) 8) ++
    (List.range 15).map (fun index => .on (first + index) .destroy)

/-- Destroying a space with two pages then fails half-way, and the space made
    after that gets one of the pages for its root. -/
def sharing : List Call :=
  [.new .init ⟨0⟩] ++ mapPages 0 2 ++ filling 1 ++ [.on 0 .destroy, .new .init ⟨0⟩]

set_option maxRecDepth 10000 in
/-- The frame `0x101000` is a page of the first space and the root of the last. -/
theorem frame_shared : after .x86_64 sharing (fun w =>
      (w.spaces.map AddressSpace.owned, decide w.SingleOwner)) =
    some ([[0x100000, 0x101000, 0x102000]] ++ List.replicate 15 [] ++ [[0x101000]], false) := by
  decide +kernel

end Space

end Norx
