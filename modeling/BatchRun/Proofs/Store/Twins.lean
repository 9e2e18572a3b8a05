import BatchRun.Proofs.Store.Catalogue

/-!
# Twin Stores

Stores that keep the same objects and list them differently.

Two services are twins if each has a catalogue of the same objects, whatever the
order and the pages, and if every get has the same body from both or fails in
both. Listing one of them is none of the other's business, so twins may be listed
in different numbers of pages and are still twins.

Two stores in memory are twins if they keep the same objects and have the same
faults, none of which strikes a listing. Their pages may have any size and their
listings either direction.

## Main definitions

* `Catalogue.Twins`: Two services keep the same objects.
* `Rehearsal.Alike`: Two stores in memory do.

## Theorems

* `Catalogue.Twins.after_lists`: Listings leave them twins.
* `MemoryStore.find?_eq_some_iff`: What a store has at an address.
* `Rehearsal.twins_alike`: Stores in memory are twins.
-/

namespace BatchRun

variable {σ τ : Type}

/-- Two services that keep the same objects, each with a catalogue of its own, and
    hand them out alike. -/
structure Catalogue.Twins {service : Service σ} {other : Service τ} (first : Catalogue service)
    (second : Catalogue other) (alike : σ → τ → Prop) : Prop where
  opens : ∀ {state state'}, alike state state' → first.Open state ∧ second.Open state'
  same : ∀ {state state'}, alike state state' →
    (first.objects state).Perm (second.objects state')
  /-- A listing of one of them leaves them twins. -/
  listed : ∀ {state state'}, alike state state' → ∀ root token,
    alike (service.reply (.list root token) state).settled state' ∧
      alike state (other.reply (.list root token) state').settled
  /-- A get has the same body from both, or fails in both. -/
  got : ∀ {state state'}, alike state state' → ∀ uri,
    ((service.reply (.get uri) state).delay ≠ none ∧
      (other.reply (.get uri) state').delay ≠ none) ∧
    (∀ body, (service.reply (.get uri) state).answer = .ok body ↔
      (other.reply (.get uri) state').answer = .ok body) ∧
    alike (service.reply (.get uri) state).settled (other.reply (.get uri) state').settled

namespace Catalogue.Twins

variable {service : Service σ} {other : Service τ} {first : Catalogue service}
  {second : Catalogue other} {alike : σ → τ → Prop}

/-- Listings leave them twins, however many pages there are. -/
theorem after_lists (twins : first.Twins second alike) (root root' : ObjectUri)
    (tokens tokens' : List (Option String)) {state : σ} {state' : τ} (h : alike state state') :
    alike (service.after (tokens.map (.list root)) state)
      (other.after (tokens'.map (.list root')) state') := by
  induction tokens generalizing state with
  | nil =>
      induction tokens' generalizing state' with
      | nil => exact h
      | cons token rest ih => exact ih (twins.listed h root' token).2
  | cons token rest ih => exact ih (twins.listed h root token).1

end Catalogue.Twins

/-- A strike leaves every fault one of its kind. -/
theorem StoreFault.method_of_mem_strike {method : StoreMethod} {subject : String}
    {faults : List StoreFault} {fault : StoreFault} (h : fault ∈ (strike method subject faults).2) :
    ∃ before ∈ faults, before.method = fault.method := by
  induction faults with
  | nil => exact absurd h List.not_mem_nil
  | cons first rest ih =>
      -- The first fault keeps its kind, whether it lets the call pass or has nothing to do with it.
      have hlater : ∀ other : StoreFault, fault ∈ other :: (strike method subject rest).2 →
          other.method = first.method →
          ∃ before ∈ first :: rest, before.method = fault.method := fun other hmem hother => by
        rcases List.mem_cons.mp hmem with rfl | hmem
        · exact ⟨first, List.mem_cons_self, hother.symm⟩
        · rcases ih hmem with ⟨before, hbefore, hsame⟩
          exact ⟨before, List.mem_cons_of_mem _ hbefore, hsame⟩
      unfold strike at h
      split at h
      · split at h
        · rcases List.mem_cons.mp h with rfl | hmem
          · exact ⟨first, List.mem_cons_self, rfl⟩
          · exact ⟨fault, List.mem_cons_of_mem _ hmem, rfl⟩
        · exact hlater _ h rfl
      · exact hlater _ h rfl

/-- What a store has at an address is the object there, if the addresses
    differ. -/
theorem MemoryStore.find?_eq_some_iff {store : MemoryStore}
    (h : (store.objects.map StoredObject.address).Nodup) (uri : ObjectUri) (object : StoredObject) :
    store.find? uri = some object ↔
      object ∈ store.objects ∧ object.address = (uri.bucket, uri.key) := by
  have hat : ∀ other : StoredObject, isAt uri.bucket uri.key other = true ↔
      other.address = (uri.bucket, uri.key) := fun other => by
    rw [isAt, Bool.and_eq_true, beq_iff_eq, beq_iff_eq, StoredObject.address, Prod.mk.injEq]
  constructor
  · intro hfind
    exact ⟨List.mem_of_find?_eq_some hfind, (hat object).mp (List.find?_some hfind)⟩
  · rintro ⟨hmem, haddress⟩
    cases hfind : store.find? uri with
    | none =>
        have hnone := List.find?_eq_none.mp hfind object hmem
        exact absurd ((hat object).mpr haddress) hnone
    | some other =>
        have hother := (hat other).mp (List.find?_some hfind)
        rw [List.inj_on_of_nodup_map h (List.mem_of_find?_eq_some hfind) hmem
          (hother.trans haddress.symm)]

namespace Rehearsal

/-- Two stores in memory with the same objects and the same faults, none of which
    strikes a listing. -/
structure Alike (state state' : Rehearsal) : Prop where
  opens : catalogue.Open state
  opens' : catalogue.Open state'
  objects : state.store.objects.Perm state'.store.objects
  faults : state.store.faults = state'.store.faults

/-- A get leaves a store in memory as it is, but for its faults. -/
theorem open_of_get {state : Rehearsal} (h : catalogue.Open state) (uri : ObjectUri) :
    catalogue.Open { state with
      store := { state.store with
        faults := (StoreFault.strike .get uri.key state.store.faults).2 } } := by
  refine ⟨h.1, h.2.1, fun fault hfault => ?_⟩
  rcases StoreFault.method_of_mem_strike hfault with ⟨before, hbefore, hsame⟩
  rw [← hsame]
  exact h.2.2 before hbefore

/-- Twins have the same object at an address. -/
theorem Alike.find?_eq {state state' : Rehearsal} (h : Alike state state') (uri : ObjectUri) :
    state.store.find? uri = state'.store.find? uri := by
  refine Option.ext fun object => ?_
  rw [MemoryStore.find?_eq_some_iff h.opens.2.1, MemoryStore.find?_eq_some_iff h.opens'.2.1,
    h.objects.mem_iff]

/-- Stores in memory are twins, whatever the size of their pages and the
    direction of their listings. -/
theorem twins_alike : catalogue.Twins catalogue Alike where
  opens h := ⟨h.opens, h.opens'⟩
  same h := h.objects
  listed h root token := by
    rw [reply_list h.opens.2.2, reply_list h.opens'.2.2]
    exact ⟨h, h⟩
  got {state state'} h uri := by
    have hsettled : Alike
        { state with store := { state.store with
            faults := (StoreFault.strike .get uri.key state.store.faults).2 } }
        { state' with store := { state'.store with
            faults := (StoreFault.strike .get uri.key state'.store.faults).2 } } :=
      ⟨open_of_get h.opens uri, open_of_get h.opens' uri, h.objects, by simp only [h.faults]⟩
    have hfind := h.find?_eq uri
    simp only [MemoryStore.find?] at hfind
    simp only [h.faults] at hsettled
    simp only [service, reply, ofStore, MemoryStore.reply, MemoryStore.subject?, h.faults]
    -- A fault strikes both, or none of them.
    cases (StoreFault.strike .get uri.key state'.store.faults).1.bind (·.error) with
    | some error => exact ⟨⟨Option.some_ne_none _, Option.some_ne_none _⟩,
        fun _ => Iff.rfl, hsettled⟩
    | none =>
        refine ⟨⟨Option.some_ne_none _, Option.some_ne_none _⟩, fun body => ?_, hsettled⟩
        simp only [MemoryStore.answer, MemoryStore.find?, hfind]

end Rehearsal

end BatchRun
