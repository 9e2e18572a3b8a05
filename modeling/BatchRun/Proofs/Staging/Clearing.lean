import BatchRun.Proofs.ObjectUri
import BatchRun.Proofs.Job.CleanUp
import BatchRun.Proofs.Store.Storeroom

/-!
# Clearing a Place

What deleting everything below an address leaves in a store.

Every page is listed behind the one before, and what is on it is deleted one by
one, so the cursor never passes over an object that is still there. An object is
asked for by its key without outer slashes. For a key that has none this is the
object itself, and then it stays exactly if its own call has failed.

## Main definitions

* `Call.Clears`: A call on the way of clearing a place.
* `ClearsFrom`: What the calls have reached by which a place is cleared.
* `Staging.deletions`: The calls that delete what is on a page.
* `Staging.ClearsPage`: What the calls for one page have reached.

## Theorems

* `Staging.deleteEach_asks`: The calls that delete what is on a page.
* `Staging.ClearsPage.last`, `Staging.ClearsPage.more`: The last page, and one
  with others behind it.
* `Staging.clears_of_deleteAll`: The calls for all pages.
-/

namespace BatchRun

variable {σ : Type} {service : Service σ}

/-- Calls that list objects. -/
def Call.isListing : Call → Bool
  | list _ _ => true
  | _ => false

/-- A call that lists what is below an address, or deletes what may be listed. -/
inductive Call.Clears (root : ObjectUri) (objects : List StoredObject) : Call → Prop
  | list (token : Option String) : Clears root objects (.list root token)
  | delete {object : StoredObject} (hmem : object ∈ objects) (hcovered : root.Covers object) :
      Clears root objects (.delete (root.withKey object.key))

namespace Call.Clears

variable {root : ObjectUri} {objects : List StoredObject} {call : Call}

theorem sweeps (h : call.Clears root objects) : call.sweeps = true := by
  cases h with
  | list token => rfl
  | delete _ _ => rfl

theorem mono {others : List StoredObject} (h : call.Clears root objects)
    (hsubset : objects ⊆ others) : call.Clears root others := by
  cases h with
  | list token => exact .list token
  | delete hmem hcovered => exact .delete (hsubset hmem) hcovered

end Call.Clears

/-- The calls by which a place is cleared from a cursor on. They only list and
    delete, and unless a listing fails they reach every object. -/
structure ClearsFrom (room : Storeroom service) (root : ObjectUri) (token : Option String)
    (session final : Session σ) (made : List Call) : Prop where
  calls : final.calls = session.calls ++ made
  state : final.state = service.after made session.state
  asked : ∀ call ∈ made, call.Clears root (room.store session.state).objects
  reached : (∀ exchange ∈ service.exchanges made session.state,
      exchange.call.isListing = true → exchange.failed = false) →
    ∀ object ∈ (room.store session.state).objects,
      (room.store session.state).isListed root token object = true →
      .delete (root.withKey object.key) ∈ made ∨ object ∉ (room.store final.state).objects

namespace ClearsFrom

variable {room : Storeroom service} {root : ObjectUri} {token : Option String}
  {session final : Session σ} {made : List Call}

theorem sweeps (h : ClearsFrom room root token session final made) :
    ∀ call ∈ made, call.sweeps = true :=
  fun call hcall => (h.asked call hcall).sweeps

/-- What is left is what no call has deleted. -/
theorem mem_final_iff (h : ClearsFrom room root token session final made)
    {object : StoredObject} :
    object ∈ (room.store final.state).objects ↔ object ∈ (room.store session.state).objects ∧
      ∀ uri ∈ service.deleted made session.state,
        MemoryStore.isAt uri.bucket uri.key object = false := by
  rw [h.state, room.store_after h.sweeps, MemoryStore.mem_without]

end ClearsFrom

namespace Staging

variable {tree : FileTree} {limit : Nat} {root : ObjectUri}

/-- The calls that delete some listed objects. -/
def deletions (root : ObjectUri) (objects : List ObjectSummary) : List Call :=
  objects.map fun object => .delete (root.withKey object.key)

/-- Deleting listed objects makes one call for each, whatever the answers are. -/
theorem deleteEach_asks {objects : List ObjectSummary} {session final : Session σ}
    (h : deleteEach (Session.host service tree limit) root objects session = (some (), final)) :
    final.calls = session.calls ++ deletions root objects ∧
      final.state = service.after (deletions root objects) session.state := by
  induction objects generalizing session with
  | nil =>
      rcases Action.eq_of_pure h with ⟨_, rfl⟩
      exact ⟨(List.append_nil _).symm, rfl⟩
  | cons object rest ih =>
      rcases Action.eq_of_bind h with ⟨answer, middle, hasked, hrest⟩
      rcases Session.answered_of_ask hasked with ⟨hcalls, hstate, _⟩
      rcases ih hrest with ⟨hmore, hfinal⟩
      refine ⟨?_, ?_⟩
      · rw [hmore, hcalls, List.append_assoc]
        rfl
      · rw [hfinal, hstate]
        rfl

/-- The calls for one page, and what they have taken from the store. -/
structure ClearsPage (room : Storeroom service) (root : ObjectUri) (token : Option String)
    (page : ObjectPage) (session cleared : Session σ) : Prop where
  page_eq : page = (room.store session.state).page root token
  calls : cleared.calls = session.calls ++ .list root token :: deletions root page.objects
  state : cleared.state = service.after (.list root token :: deletions root page.objects)
    session.state

namespace ClearsPage

variable {room : Storeroom service} {token : Option String} {page : ObjectPage}
  {session cleared : Session σ}

theorem asked (h : ClearsPage room root token page session cleared) :
    ∀ call ∈ .list root token :: deletions root page.objects,
      call.Clears root (room.store session.state).objects := by
  intro call hcall
  rcases List.mem_cons.mp hcall with rfl | hcall
  · exact .list token
  · rcases List.mem_map.mp hcall with ⟨object, hobject, rfl⟩
    rw [h.page_eq] at hobject
    rcases MemoryStore.listed_of_mem_page hobject with ⟨stored, hmem, hlisted, hkey⟩
    rw [← hkey]
    exact .delete hmem (MemoryStore.covers_of_isListed hlisted)

/-- What is listed is asked for, or it is behind the page. -/
theorem reached_or_behind (h : ClearsPage room root token page session cleared)
    (hsize : 0 < (room.store session.state).pageSize) {object : StoredObject}
    (hmem : object ∈ (room.store session.state).objects)
    (hlisted : (room.store session.state).isListed root token object = true) :
    .delete (root.withKey object.key) ∈ Call.list root token :: deletions root page.objects ∨
      ∃ next, page.nextToken = some next ∧
        (room.store session.state).isListed root (some next) object = true := by
  rcases MemoryStore.on_page_or_behind hsize hmem hlisted with ⟨summary, hsummary, hkey⟩ | hbehind
  · rw [← h.page_eq] at hsummary
    exact Or.inl (List.mem_cons_of_mem _ (List.mem_map.mpr ⟨summary, hsummary, by rw [hkey]⟩))
  · rw [← h.page_eq] at hbehind
    exact Or.inr hbehind

/-- A page without a cursor is the last one. -/
theorem last (h : ClearsPage room root token page session cleared)
    (hsize : 0 < (room.store session.state).pageSize) (hlast : page.nextToken = none) :
    ClearsFrom room root token session cleared
      (.list root token :: deletions root page.objects) := by
  refine ⟨h.calls, h.state, h.asked, fun _ object hmem hlisted => ?_⟩
  rcases h.reached_or_behind hsize hmem hlisted with hreached | ⟨next, hnext, _⟩
  · exact Or.inl hreached
  · rw [hlast] at hnext
    exact absurd hnext (by simp only [reduceCtorEq, not_false_eq_true])

/-- What is left of a page with a cursor is what no call has deleted. -/
theorem store_eq (h : ClearsPage room root token page session cleared) :
    ∃ uris, room.store cleared.state = (room.store session.state).without uris := by
  rw [h.state]
  exact ⟨_, room.store_after (fun call hcall => (h.asked call hcall).sweeps) session.state⟩

/-- Behind a page with a cursor the others follow. -/
theorem more (h : ClearsPage room root token page session cleared)
    (hsize : 0 < (room.store session.state).pageSize) {next : String}
    (hnext : page.nextToken = some next) {final : Session σ} {rest : List Call}
    (hrest : ClearsFrom room root (some next) cleared final rest) :
    ClearsFrom room root token session final
      (.list root token :: deletions root page.objects ++ rest) := by
  rcases h.store_eq with ⟨uris, hleft⟩
  have hkept : (room.store cleared.state).objects ⊆ (room.store session.state).objects := by
    rw [hleft]
    exact List.Sublist.subset List.filter_sublist
  refine ⟨?_, ?_, fun call hcall => ?_, fun hlists object hmem hlisted => ?_⟩
  · rw [hrest.calls, h.calls, List.append_assoc]
  · rw [hrest.state, h.state, Service.after_append]
  · rcases List.mem_append.mp hcall with hcall | hcall
    · exact h.asked call hcall
    · exact (hrest.asked call hcall).mono hkept
  · rw [Service.exchanges_append, ← h.state] at hlists
    rcases h.reached_or_behind hsize hmem hlisted with hreached | ⟨other, hother, hbehind⟩
    · exact Or.inl (List.mem_append_left _ hreached)
    rw [hnext, Option.some.injEq] at hother
    by_cases hleave : object ∈ (room.store cleared.state).objects
    · -- It is still there when the next page is listed, and in the same order.
      rw [← hother, show (room.store session.state).isListed root (some next) object =
        (room.store cleared.state).isListed root (some next) object by rw [hleft]; rfl] at hbehind
      rcases hrest.reached (fun exchange hmem => hlists exchange
        (List.mem_append_right _ hmem)) object hleave hbehind with hreached | hgone
      · exact Or.inl (List.mem_append_right _ hreached)
      · exact Or.inr hgone
    · exact Or.inr fun hfinal => hleave (hrest.mem_final_iff.mp hfinal).1

end ClearsPage

/-- Deleting everything from a cursor on clears the place from there. -/
theorem clears_of_deleteAll (room : Storeroom service) {rounds : Nat} {token : Option String}
    {session final : Session σ} (hsize : 0 < (room.store session.state).pageSize)
    (h : deleteAll (Session.host service tree limit) root rounds token session =
      (some (), final)) :
    ∃ made, ClearsFrom room root token session final made := by
  induction rounds generalizing token session with
  | zero => exact absurd h (Session.wait_ne_some service tree limit session final ())
  | succ rounds ih =>
      rcases Action.eq_of_bind h with ⟨answer, listed, hasked, hrest⟩
      rcases Session.answered_of_ask hasked with ⟨hcalls, hstate, hanswer⟩
      cases answer with
      | error error =>
          rcases Action.eq_of_pure hrest with ⟨_, rfl⟩
          refine ⟨[.list root token], hcalls, hstate, ?_, ?_⟩
          · intro call hcall
            rw [List.mem_singleton.mp hcall]
            exact .list token
          · -- The only listing has failed.
            intro hlists
            have hfailed := hlists _ (List.mem_singleton_self _) rfl
            rw [Exchange.failed, hanswer] at hfailed
            exact absurd hfailed (by simp only [Bool.true_eq_false, not_false_eq_true])
      | ok page =>
          rcases Action.eq_of_bind hrest with ⟨_, cleared, heach, hrest⟩
          rcases deleteEach_asks heach with ⟨hdeleted, hcleared⟩
          have hpage : ClearsPage room root token page session cleared := by
            refine ⟨room.page_eq hanswer, ?_, ?_⟩
            · rw [hdeleted, hcalls, List.append_assoc]
              rfl
            · rw [hcleared, hstate]
              rfl
          cases hnext : page.nextToken with
          | none =>
              rw [hnext] at hrest
              rcases Action.eq_of_pure hrest with ⟨_, rfl⟩
              exact ⟨_, hpage.last hsize hnext⟩
          | some next =>
              rw [hnext] at hrest
              rcases hpage.store_eq with ⟨uris, hleft⟩
              rcases ih (by rw [hleft]; exact hsize) hrest with ⟨rest, hmore⟩
              exact ⟨_, hpage.more hsize hnext hmore⟩

end Staging

end BatchRun
