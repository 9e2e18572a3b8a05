import BatchRun.Proofs.Staging.Apart
import BatchRun.Proofs.Store.Storeroom

/-!
# Shared Stores

Services that keep objects for several runs at the same time.

While a call is under way the others may make any calls of their own, before it has
its effect and after. It may also have no effect at all, if it fails or is no longer
waited for. All that is known of a listing is that its keys are below the address it
was asked for; what is on it may be gone by the time it is read.

What stands below a place depends only on the calls for that place. So if a run only
lists, and deletes elsewhere, the others find below the place what they would have
found there without it.

## Main definitions

* `MemoryStore.applyAll`: What some calls do to a store.
* `MemoryStore.SameBelow`: Two stores have the same below a place.
* `Call.DeletesBelow`: A call deletes below a place.
* `Mingled`: What becomes of a store while a call is under way.
* `SharedRoom`: A service that keeps objects for others as well.
* `SharedRoom.OnlyOthers`: Below a place only the others have changed anything.
* `Commons`: A store in memory that others use, by a schedule.

## Theorems

* `MemoryStore.SameBelow.applyAll`: They stay the same under the same calls.
* `MemoryStore.sameBelow_apply`: A call for another place changes nothing there.
* `SharedRoom.onlyOthers_of_mingled`: One call that deletes nothing below a place.
* `SharedRoom.onlyOthers_of_dialogue`: All the calls of a run that deletes nothing
  there.
* `Commons.room`: A store in memory is such a service, whatever its faults and the
  schedule are.
-/

namespace BatchRun

/-- A call deletes an object below a place, if there is one at its address. -/
def Call.DeletesBelow (place : ObjectUri) : Call → Prop
  | delete uri => place.Holds uri
  | _ => False

namespace MemoryStore

/-- What some calls do to a store, one after the other. -/
def applyAll (store : MemoryStore) (calls : List Call) : MemoryStore :=
  calls.foldl apply store

theorem applyAll_append (store : MemoryStore) (front back : List Call) :
    store.applyAll (front ++ back) = (store.applyAll front).applyAll back :=
  List.foldl_append

/-- Which faults a store has makes no difference to what calls without a fault do. -/
theorem applyAll_faults (store : MemoryStore) (faults : List StoreFault) (calls : List Call) :
    ({ store with faults } : MemoryStore).applyAll calls =
      { store.applyAll calls with faults } := by
  induction calls generalizing store with
  | nil => rfl
  | cons call rest ih =>
      have hfirst : ({ store with faults } : MemoryStore).apply call =
          { store.apply call with faults } := by
        cases call <;> rfl
      rw [applyAll, List.foldl_cons, hfirst]
      exact ih (store.apply call)

/-- Two stores have the same objects below a place, in the same order, and count the
    objects that are written alike. -/
structure SameBelow (place : ObjectUri) (store other : MemoryStore) : Prop where
  objects : store.objects.filter (place.Covers ·) = other.objects.filter (place.Covers ·)
  version : store.version = other.version

/-- A call that is broken off has only been counted by the faults. -/
theorem abandoned_eq (call : Call) (store : MemoryStore) :
    ∃ faults, (reply call store).abandoned = { store with faults } := by
  cases hsubject : subject? call with
  | none => exact ⟨store.faults, by simp only [reply, hsubject, Option.bind_none]⟩
  | some subject =>
      refine ⟨(StoreFault.strike subject.1 subject.2 store.faults).2, ?_⟩
      cases hstruck : (StoreFault.strike subject.1 subject.2 store.faults).1.bind (·.error) with
      | some error => simp only [reply, hsubject, hstruck]
      | none => simp only [reply, hsubject, hstruck]

variable {place uri : ObjectUri} {store other third : MemoryStore} {call : Call}

namespace SameBelow

theorem refl (place : ObjectUri) (store : MemoryStore) : SameBelow place store store :=
  ⟨rfl, rfl⟩

theorem trans (h : SameBelow place store other) (hnext : SameBelow place other third) :
    SameBelow place store third :=
  ⟨h.objects.trans hnext.objects, h.version.trans hnext.version⟩

theorem remove (h : SameBelow place store other) (bucket key : String) :
    SameBelow place (store.remove bucket key) (other.remove bucket key) := by
  refine ⟨?_, h.version⟩
  -- What is removed may as well be left out of what is below the place.
  have hboth (kept : MemoryStore) :
      (kept.remove bucket key).objects.filter (place.Covers ·) =
        (kept.objects.filter (place.Covers ·)).filter (!isAt bucket key ·) := by
    simp only [MemoryStore.remove, List.filter_filter, Bool.and_comm]
  rw [hboth, hboth, h.objects]

theorem apply (h : SameBelow place store other) (call : Call) :
    SameBelow place (store.apply call) (other.apply call) := by
  cases call with
  | put uri content =>
      refine ⟨?_, congrArg (· + 1) h.version⟩
      simp only [MemoryStore.apply, MemoryStore.place, List.filter_append,
        (h.remove uri.bucket uri.key).objects, h.version]
  | delete uri => exact h.remove uri.bucket uri.key
  | _ => exact h

/-- Stores that are the same below a place stay so under the same calls. -/
theorem applyAll (h : SameBelow place store other) (calls : List Call) :
    SameBelow place (store.applyAll calls) (other.applyAll calls) := by
  induction calls generalizing store other with
  | nil => exact h
  | cons call rest ih => exact ih (h.apply call)

end SameBelow

/-- Removing what is not below a place leaves what is. -/
theorem sameBelow_remove (h : ¬ place.Holds uri) (store : MemoryStore) :
    SameBelow place (store.remove uri.bucket uri.key) store := by
  refine ⟨?_, rfl⟩
  rw [MemoryStore.remove, List.filter_filter]
  refine List.filter_congr fun object _ => ?_
  by_cases hat : isAt uri.bucket uri.key object = true
  · -- An object at the address is not below the place either.
    rw [isAt, Bool.and_eq_true, beq_iff_eq, beq_iff_eq] at hat
    have houtside : ¬ place.Covers object := fun hcovered =>
      h ⟨hat.1.symm.trans hcovered.1, by rw [← hat.2]; exact hcovered.2⟩
    rw [decide_eq_false houtside, Bool.false_and]
  · rw [Bool.not_eq_true] at hat
    rw [hat, Bool.not_false, Bool.and_true]

/-- A call that lists, or deletes somewhere else, leaves what is below a place. -/
theorem sameBelow_apply (hsweeps : call.sweeps = true) (h : ¬ call.DeletesBelow place)
    (store : MemoryStore) : SameBelow place (store.apply call) store := by
  cases call with
  | list root token => exact .refl place store
  | delete uri => exact sameBelow_remove h store
  | _ => exact absurd hsweeps Bool.false_ne_true

end MemoryStore

section

variable {σ : Type} (store : σ → MemoryStore) (others : σ → List Call)

/-- What becomes of a store while a call is under way. The others make calls before
    it and behind it, and it has its effect or none. -/
def Mingled (call : Call) (state next : σ) : Prop :=
  ∃ before own behind, (own = [] ∨ own = [call]) ∧
    others next = others state ++ (before ++ behind) ∧
    store next = (store state).applyAll (before ++ own ++ behind)

end

/-- A service that keeps objects for others as well. -/
structure SharedRoom {σ : Type} (service : Service σ) where
  /-- The objects, and how they are listed. -/
  store : σ → MemoryStore
  /-- The calls that the others have made. -/
  others : σ → List Call
  listed : ∀ {root token state page},
    (service.reply (.list root token) state).answer = .ok page →
      ∀ object ∈ page.objects, root.listing.toList <+: object.key.toList
  settled : ∀ {call} state, call.sweeps = true →
    Mingled store others call state (service.reply call state).settled
  abandoned : ∀ {call} state, call.sweeps = true →
    Mingled store others call state (service.reply call state).abandoned

namespace SharedRoom

variable {σ : Type} {service : Service σ} (room : SharedRoom service) {place : ObjectUri}

/-- Below a place only the others have changed anything between two states. -/
def OnlyOthers (place : ObjectUri) (state next : σ) : Prop :=
  ∃ theirs, room.others next = room.others state ++ theirs ∧
    (room.store next).SameBelow place ((room.store state).applyAll theirs)

variable {room}

namespace OnlyOthers

theorem refl (state : σ) : room.OnlyOthers place state state :=
  ⟨[], (List.append_nil _).symm, .refl place _⟩

theorem trans {state middle next : σ} (h : room.OnlyOthers place state middle)
    (hnext : room.OnlyOthers place middle next) : room.OnlyOthers place state next := by
  rcases h with ⟨first, hfirst, hsame⟩
  rcases hnext with ⟨later, hlater, hrest⟩
  refine ⟨first ++ later, ?_, ?_⟩
  · rw [hlater, hfirst, List.append_assoc]
  · rw [MemoryStore.applyAll_append]
    exact hrest.trans (hsame.applyAll later)

end OnlyOthers

/-- A call that deletes nothing below a place changes nothing there, whether it has its
    effect or not. -/
theorem onlyOthers_of_mingled {call : Call} {state next : σ}
    (h : Mingled room.store room.others call state next) (hsweeps : call.sweeps = true)
    (hspares : ¬ call.DeletesBelow place) : room.OnlyOthers place state next := by
  rcases h with ⟨before, own, behind, hown, hothers, hstore⟩
  refine ⟨before ++ behind, hothers, ?_⟩
  rw [hstore, MemoryStore.applyAll_append, MemoryStore.applyAll_append,
    MemoryStore.applyAll_append]
  -- What the others do behind the call they do in a store that is the same there.
  refine MemoryStore.SameBelow.applyAll ?_ behind
  rcases hown with rfl | rfl
  · exact .refl place _
  · exact MemoryStore.sameBelow_apply hsweeps hspares _

/-- Nor does a whole dialogue of such calls, answered or broken off. -/
theorem onlyOthers_of_dialogue {state final : σ} {talk : List Exchange}
    (h : Dialogue service state talk final)
    (hspares : ∀ exchange ∈ talk,
      exchange.call.sweeps = true ∧ ¬ exchange.call.DeletesBelow place) :
    room.OnlyOthers place state final := by
  induction h with
  | done state => exact .refl state
  | @answered state final rest call _ ih =>
      rcases List.forall_mem_cons.mp hspares with ⟨hfirst, hrest⟩
      exact (onlyOthers_of_mingled (room.settled state hfirst.1) hfirst.1 hfirst.2).trans (ih hrest)
  | @brokenOff state final rest call _ ih =>
      rcases List.forall_mem_cons.mp hspares with ⟨hfirst, hrest⟩
      exact (onlyOthers_of_mingled (room.abandoned state hfirst.1) hfirst.1 hfirst.2).trans
        (ih hrest)

end SharedRoom

/-- A store in memory that others use as well, by a schedule. -/
structure Commons where
  store : MemoryStore
  /-- The calls of others before and behind each of the next calls. -/
  schedule : List (List Call × List Call)
  /-- The calls that the others have made. -/
  made : List Call

namespace Commons

/-- What the others do before the next call, and what they do behind it. -/
def next (state : Commons) : List Call × List Call :=
  state.schedule.headD ([], [])

/-- The others go on with the store that a call has left. -/
def proceed (state : Commons) (store : MemoryStore) : Commons :=
  { store := store.applyAll state.next.2
    schedule := state.schedule.tail
    made := state.made ++ (state.next.1 ++ state.next.2) }

/-- What is made of a call, between those of the others. -/
def reply (call : Call) (state : Commons) : Reply Commons call :=
  let reply := MemoryStore.reply call (state.store.applyAll state.next.1)
  { delay := reply.delay
    abandoned := state.proceed reply.abandoned
    settled := state.proceed reply.settled
    answer := reply.answer
    cancels := reply.cancels }

/-- A store in memory that others use, as a service. -/
def service : Service Commons := ⟨reply⟩

/-- The store without its faults, which strike none of the others. -/
def kept (state : Commons) : MemoryStore :=
  { state.store with faults := [] }

/-- The others find what a call has left, whatever faults it has met. -/
theorem kept_proceed (state : Commons) (own : List Call) (faults : List StoreFault) :
    (state.proceed (({ state.store.applyAll state.next.1 with
      faults } : MemoryStore).applyAll own)).kept =
      state.kept.applyAll (state.next.1 ++ own ++ state.next.2) := by
  simp only [kept, proceed, MemoryStore.applyAll_faults, MemoryStore.applyAll_append]

/-- A call that has had its effect, or none. -/
theorem mingled_proceed {call : Call} (state : Commons) {own : List Call}
    (hown : own = [] ∨ own = [call]) (faults : List StoreFault) :
    Mingled kept made call state (state.proceed
      (({ state.store.applyAll state.next.1 with faults } : MemoryStore).applyAll own)) :=
  ⟨state.next.1, own, state.next.2, hown, rfl, state.kept_proceed own faults⟩

/-- Whatever the faults and the schedule are, this is a service of that kind. -/
def room : SharedRoom service where
  store := kept
  others := made
  listed := by
    intro root token state page hpage object hmem
    rcases MemoryStore.reply_cases (.list root token) (state.store.applyAll state.next.1) with
      ⟨faults, ⟨error, hanswer, _⟩ | ⟨hanswer, _⟩⟩
    · exact absurd (hpage.symm.trans hanswer) (by simp only [reduceCtorEq, not_false_eq_true])
    · rw [Except.ok.inj (hpage.symm.trans hanswer)] at hmem
      rcases MemoryStore.listed_of_mem_page hmem with ⟨stored, _, hlisted, hkey⟩
      rw [← hkey]
      exact (MemoryStore.covers_of_isListed hlisted).2
  settled := by
    intro call state _
    rcases MemoryStore.reply_cases call (state.store.applyAll state.next.1) with
      ⟨faults, ⟨error, _, hsettled⟩ | ⟨_, hsettled⟩⟩
    · simp only [service, reply, hsettled]
      exact state.mingled_proceed (Or.inl rfl) faults
    · simp only [service, reply, hsettled]
      exact state.mingled_proceed (Or.inr rfl) faults
  abandoned := by
    intro call state _
    rcases MemoryStore.abandoned_eq call (state.store.applyAll state.next.1) with
      ⟨faults, habandoned⟩
    simp only [service, reply, habandoned]
    exact state.mingled_proceed (Or.inl rfl) faults

end Commons

end BatchRun
