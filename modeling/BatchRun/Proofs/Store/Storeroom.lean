import BatchRun.Proofs.Session.Answered
import BatchRun.Proofs.Store.Paging

/-!
# Storerooms

Services that keep objects.

A storeroom lists its objects in pages of its own size and order, and a delete
call that succeeds takes away what is at its address and nothing else. Which calls
fail, and how long an answer takes, is left to the service, and so is what any
other call does to the objects.

## Main definitions

* `Storeroom`: A service that keeps objects as a store in memory does.
* `MemoryStore.without`: A store without the objects at some addresses.
* `Exchange.failed`: A call was answered by an error.
* `Service.deleted`: What some calls have deleted.
* `Rehearsal.storeroom`: A store in memory is a storeroom, whatever its faults.

## Theorems

* `MemoryStore.mem_without`: What is left in a store.
* `Storeroom.store_after`: What listing and deleting makes of the objects.
-/

namespace BatchRun

variable {σ : Type}

/-- A service that keeps objects as a store in memory does. -/
structure Storeroom (service : Service σ) where
  /-- The objects, and how they are listed. -/
  store : σ → MemoryStore
  page_eq : ∀ {root token state page},
    (service.reply (.list root token) state).answer = .ok page →
      page = (store state).page root token
  list_eq : ∀ root token state,
    store (service.reply (.list root token) state).settled = store state
  delete_ok : ∀ {uri state}, (service.reply (.delete uri) state).answer = .ok () →
    store (service.reply (.delete uri) state).settled = (store state).remove uri.bucket uri.key
  delete_error : ∀ {uri state error}, (service.reply (.delete uri) state).answer = .error error →
    store (service.reply (.delete uri) state).settled = store state

/-- A store without the objects at some addresses. -/
def MemoryStore.without (store : MemoryStore) (uris : List ObjectUri) : MemoryStore :=
  { store with
    objects := store.objects.filter fun object => uris.all fun uri =>
      !isAt uri.bucket uri.key object }

/-- A call was answered by an error. -/
def Exchange.failed (exchange : Exchange) : Bool :=
  match exchange.answer with
  | some (.error _) => true
  | _ => false

/-- The address that a call has cleared of its object. -/
def Exchange.deleted? : Exchange → Option ObjectUri
  | ⟨.delete uri, some (.ok _)⟩ => some uri
  | _ => none

/-- The addresses that some calls have cleared of their objects, if all are
    answered. -/
def Service.deleted (service : Service σ) (calls : List Call) (state : σ) : List ObjectUri :=
  (service.exchanges calls state).filterMap Exchange.deleted?

/-- Calls that list or delete objects. -/
def Call.sweeps : Call → Bool
  | list _ _ => true
  | delete _ => true
  | _ => false

namespace MemoryStore

theorem mem_without {store : MemoryStore} {uris : List ObjectUri} {object : StoredObject} :
    object ∈ (store.without uris).objects ↔
      object ∈ store.objects ∧ ∀ uri ∈ uris, isAt uri.bucket uri.key object = false := by
  simp only [without, List.mem_filter, List.all_eq_true, Bool.not_eq_true']

theorem without_nil (store : MemoryStore) : store.without [] = store := by
  simp only [without, List.all_nil, List.filter_eq_self.mpr fun _ _ => rfl]

theorem without_append (store : MemoryStore) (front back : List ObjectUri) :
    store.without (front ++ back) = (store.without front).without back := by
  simp only [without, List.filter_filter, List.all_append, Bool.and_comm]

theorem remove_eq_without (store : MemoryStore) (uri : ObjectUri) :
    store.remove uri.bucket uri.key = store.without [uri] := by
  simp only [remove, without, List.all_cons, List.all_nil, Bool.and_true]

end MemoryStore

theorem Exchange.deleted?_eq_some {exchange : Exchange} {uri : ObjectUri} :
    exchange.deleted? = some uri ↔ exchange = ⟨.delete uri, some (.ok ())⟩ := by
  constructor
  · intro h
    unfold deleted? at h
    split at h
    · next other _ =>
      rw [Option.some.injEq] at h
      rw [h]
    · exact absurd h (by simp only [reduceCtorEq, not_false_eq_true])
  · rintro rfl
    rfl

namespace Service

variable {service : Service σ} {calls : List Call} {uri : ObjectUri} {state : σ}

theorem delete_mem_of_mem_deleted (h : uri ∈ service.deleted calls state) :
    .delete uri ∈ calls := by
  simp only [deleted, List.mem_filterMap, Exchange.deleted?_eq_some, exists_eq_right] at h
  exact mem_of_mem_exchanges h

/-- A delete call that does not fail deletes. -/
theorem mem_deleted_of_delete_mem
    (hdone : ∀ exchange ∈ service.exchanges calls state, exchange.failed = false)
    (h : .delete uri ∈ calls) : uri ∈ service.deleted calls state := by
  rcases exists_mem_exchanges service h state with ⟨answer, hmem⟩
  simp only [deleted, List.mem_filterMap, Exchange.deleted?_eq_some, exists_eq_right]
  cases answer with
  | ok done => exact hmem
  | error error => exact absurd (hdone _ hmem) (by simp only [Exchange.failed, Bool.true_eq_false,
      not_false_eq_true])

end Service

namespace Storeroom

variable {service : Service σ} (room : Storeroom service)

/-- One call that lists or deletes takes away what it has deleted. -/
theorem store_settled {call : Call} (h : call.sweeps = true) (state : σ) :
    room.store (service.reply call state).settled = (room.store state).without
      (Exchange.deleted? ⟨call, some (service.reply call state).answer⟩).toList := by
  cases call with
  | list root token =>
      rw [room.list_eq]
      exact (MemoryStore.without_nil _).symm
  | delete uri =>
      cases hanswer : (service.reply (.delete uri) state).answer with
      | ok done =>
          rw [room.delete_ok hanswer, MemoryStore.remove_eq_without]
          rfl
      | error error =>
          rw [room.delete_error hanswer]
          exact (MemoryStore.without_nil _).symm
  | _ => exact absurd h Bool.false_ne_true

/-- Listing and deleting takes away what was deleted, and nothing else. -/
theorem store_after {calls : List Call} (h : ∀ call ∈ calls, call.sweeps = true) (state : σ) :
    room.store (service.after calls state) =
      (room.store state).without (service.deleted calls state) := by
  induction calls generalizing state with
  | nil => exact (MemoryStore.without_nil _).symm
  | cons call rest ih =>
      have hfirst := room.store_settled (h call List.mem_cons_self) state
      rw [Service.after, ih fun other hother => h other (List.mem_cons_of_mem _ hother), hfirst,
        ← MemoryStore.without_append, Service.deleted, Service.deleted, Service.exchanges,
        List.filterMap_cons]
      cases Exchange.deleted? ⟨call, some (service.reply call state).answer⟩ with
      | none => rfl
      | some uri => rfl

end Storeroom

/-- A call for a store in memory fails and changes nothing, or is answered as if
    there were no faults. Either way only the faults have been counted on. -/
theorem MemoryStore.reply_cases (call : Call) (store : MemoryStore) :
    ∃ faults, (∃ error, (reply call store).answer = .error error ∧
        (reply call store).settled = { store with faults }) ∨
      ((reply call store).answer = ({ store with faults } : MemoryStore).answer call ∧
        (reply call store).settled = ({ store with faults } : MemoryStore).apply call) := by
  cases hsubject : subject? call with
  | none =>
      refine ⟨store.faults, Or.inr ?_⟩
      simp only [reply, hsubject, Option.bind_none, and_self]
  | some subject =>
      refine ⟨(StoreFault.strike subject.1 subject.2 store.faults).2, ?_⟩
      cases hstruck : (StoreFault.strike subject.1 subject.2 store.faults).1.bind (·.error) with
      | some error => exact Or.inl ⟨error, by simp only [reply, hsubject, hstruck, and_self]⟩
      | none => exact Or.inr (by simp only [reply, hsubject, hstruck, and_self])

/-- A store in memory is a storeroom, whatever its faults are. Neither its faults
    nor its counter are part of what it keeps. -/
def Rehearsal.storeroom : Storeroom Rehearsal.service where
  store state := { state.store with version := 0, faults := [] }
  page_eq := by
    intro root token state page hpage
    rcases MemoryStore.reply_cases (.list root token) state.store with
      ⟨faults, ⟨error, hanswer, _⟩ | ⟨hanswer, _⟩⟩
    · exact absurd (hpage.symm.trans hanswer) (by simp only [reduceCtorEq, not_false_eq_true])
    · exact Except.ok.inj (hpage.symm.trans hanswer)
  list_eq := by
    intro root token state
    rcases MemoryStore.reply_cases (.list root token) state.store with
      ⟨faults, ⟨error, _, hsettled⟩ | ⟨_, hsettled⟩⟩
    · simp only [service, reply, ofStore, hsettled]
    · simp only [service, reply, ofStore, hsettled, MemoryStore.apply]
  delete_ok := by
    intro uri state hdone
    rcases MemoryStore.reply_cases (.delete uri) state.store with
      ⟨faults, ⟨error, hanswer, _⟩ | ⟨_, hsettled⟩⟩
    · exact absurd (hdone.symm.trans hanswer) (by simp only [reduceCtorEq, not_false_eq_true])
    · simp only [service, reply, ofStore, hsettled, MemoryStore.apply, MemoryStore.remove]
  delete_error := by
    intro uri state error hfailed
    rcases MemoryStore.reply_cases (.delete uri) state.store with
      ⟨faults, ⟨_, _, hsettled⟩ | ⟨hanswer, _⟩⟩
    · simp only [service, reply, ofStore, hsettled]
    · exact absurd (hfailed.symm.trans hanswer) (by simp only [MemoryStore.answer, reduceCtorEq,
        not_false_eq_true])

/-- A store in memory beside a control plane that says no to everything. -/
def Rehearsal.idle (store : MemoryStore) : Rehearsal where
  store
  plane :=
    { script := []
      submitDelay := .zero
      submit := fun _ => .error (.unanswered [])
      cancelDelay := .zero
      cancel := .error (.unanswered [])
      applicationDelay := .zero
      application := .error (.unanswered [])
      cancelDuring := none
      asked := 0 }

end BatchRun
