import BatchRun.Logs.Reader
import BatchRun.Proofs.Store.Storeroom
import Mathlib.Data.List.Nodup

/-!
# Catalogues

What comes of a listing, however a service makes it.

A service lists its objects in an order of its own, and in pages of any size but
none at all. The cursor of a page stands for what is still to come, so a page is
the beginning of what was to come before it, and what its cursor stands for is the
rest. A page that is not the last one has at least one object. Going from page to
page therefore comes to its end, and what it finds are all objects of the place,
each of them once.

A store in memory has such a catalogue, with pages of any size and in both
directions: the addresses of its objects differ, so its listings are strictly
ordered, and what is behind the last key of a page is what was left out of it.

## Main definitions

* `StoredObject.address`: Where an object is.
* `Catalogue`: How a service lists what it keeps.
* `Rehearsal.catalogue`: That of a store in memory.

## Theorems

* `Catalogue.listAll_arrives`: All objects are found, page by page.
* `Catalogue.nodup_keys`: Each of them once.
* `MemoryStore.listed_behind`: What is behind a key of a listing.
* `MemoryStore.listed_eq_page_append`: A page, and what it leaves.
-/

namespace BatchRun

/-- Where an object is. -/
def StoredObject.address (object : StoredObject) : String × String :=
  (object.bucket, object.key)

/-- How a service lists what it keeps. -/
structure Catalogue {σ : Type} (service : Service σ) where
  /-- The states in which nothing can go wrong with a listing. -/
  Open : σ → Prop
  /-- What is kept. -/
  objects : σ → List StoredObject
  /-- What a listing of a place still has to show from a cursor on. -/
  ahead : σ → ObjectUri → Option String → List ObjectSummary
  apart : ∀ {state}, Open state → ((objects state).map StoredObject.address).Nodup
  /-- From the start, that is everything below the place, in some order. -/
  whole : ∀ {state}, Open state → ∀ root : ObjectUri, (ahead state root none).Perm
    (((objects state).filter fun object => root.Covers object).map MemoryStore.summary)
  /-- A page shows what comes first, and its cursor stands for the rest. Only the
      last page may be empty. -/
  page : ∀ {state}, Open state → ∀ root token, ∃ page,
    (service.reply (.list root token) state).answer = .ok page ∧
      ahead state root token =
        page.objects ++ page.nextToken.elim [] (fun next => ahead state root (some next)) ∧
      (page.nextToken ≠ none → page.objects ≠ [])
  answered : ∀ {state}, Open state → ∀ root token,
    (service.reply (.list root token) state).delay ≠ none
  kept : ∀ {state}, Open state → ∀ root token,
    Open (service.reply (.list root token) state).settled ∧
      objects (service.reply (.list root token) state).settled = objects state ∧
      ahead (service.reply (.list root token) state).settled = ahead state

namespace Catalogue

variable {σ : Type} {service : Service σ} (catalogue : Catalogue service) {root : ObjectUri}

/-- A listing has no more to show than there are objects. -/
theorem length_ahead_le {state : σ} (hopen : catalogue.Open state) (root : ObjectUri) :
    (catalogue.ahead state root none).length ≤ (catalogue.objects state).length := by
  rw [(catalogue.whole hopen root).length_eq, List.length_map]
  exact List.length_filter_le _ _

/-- Listing page by page finds what is to come, and makes no calls but for
    pages. -/
theorem listAll_arrives (tree : FileTree) (limit : Nat) {rounds : Nat} {token : Option String}
    (found : List ObjectSummary) {session : Session σ} (hopen : catalogue.Open session.state)
    (hlimit : session.deadline = none)
    (hrounds : (catalogue.ahead session.state root token).length < rounds) :
    ∃ (tokens : List (Option String)) (next : Session σ),
      LogReader.listAll (Session.host service tree limit) root rounds token found session =
        (some (.ok (found ++ catalogue.ahead session.state root token)), next) ∧
      next.deadline = none ∧ next.calls = session.calls ++ tokens.map (Call.list root) ∧
      next.state = service.after (tokens.map (Call.list root)) session.state := by
  induction rounds generalizing token found session with
  | zero => exact absurd hrounds (Nat.not_lt_zero _)
  | succ rounds ih =>
      rcases catalogue.page hopen root token with ⟨page, hanswer, hahead, hfull⟩
      rcases catalogue.kept hopen root token with ⟨hopen', _, hsame⟩
      rcases Session.answered_of_delay hlimit (catalogue.answered hopen root token) with
        ⟨middle, hasked, hlimit', hcalls, hstate⟩
      rw [hanswer] at hasked
      have hcall : (Session.host service tree limit).call (.list root token) session = _ := hasked
      rw [Service.after, Service.after] at hstate
      rw [← hstate] at hopen' hsame
      unfold LogReader.listAll
      rw [Action.bind_of_some hcall]
      cases hnext : page.nextToken with
      | none =>
          rw [hnext, Option.elim_none, List.append_nil] at hahead
          simp only [hnext]
          rw [hahead]
          exact ⟨[token], _, rfl, hlimit', hcalls, hstate⟩
      | some next =>
          rw [hnext, Option.elim_some] at hahead
          simp only [hnext]
          -- The page has taken at least one object from what was to come.
          have hpos := List.length_pos_of_ne_nil
            (hfull (by rw [hnext]; exact Option.some_ne_none _))
          rw [hahead, List.length_append] at hrounds
          rw [← hsame] at hahead hrounds
          have hfewer : (catalogue.ahead middle.state root (some next)).length < rounds := by omega
          rcases ih (found ++ page.objects) hopen' hlimit' hfewer with
            ⟨tokens, final, hrest, hdeadline, hmore, hfinal⟩
          refine ⟨token :: tokens, final, ?_, hdeadline, ?_, ?_⟩
          · rw [hrest, ← hsame, hahead, List.append_assoc]
          · rw [hmore, hcalls, List.append_assoc, List.map_cons, List.singleton_append]
          · rw [hfinal, hstate, List.map_cons, Service.after]

/-- No key is listed twice, since below one place an object is where its key
    says. -/
theorem nodup_keys {state : σ} (hopen : catalogue.Open state) (root : ObjectUri) :
    ((catalogue.ahead state root none).map (·.key)).Nodup := by
  rw [((catalogue.whole hopen root).map _).nodup_iff, List.map_map, List.Nodup, List.pairwise_map]
  have hapart := List.pairwise_map.mp (catalogue.apart hopen)
  refine (List.Pairwise.and_mem.mp (hapart.filter _)).imp fun {a b} h hkey => ?_
  have ha : root.Covers a := of_decide_eq_true (List.mem_filter.mp h.1).2
  have hb : root.Covers b := of_decide_eq_true (List.mem_filter.mp h.2.1).2
  exact h.2.2 (Prod.ext (ha.1.trans hb.1.symm) hkey)

end Catalogue

namespace MemoryStore

variable {store : MemoryStore} {root : ObjectUri} {token : Option String}

/-- If the addresses differ, a listing is in strict order. -/
theorem pairwise_isBefore_listed (h : (store.objects.map StoredObject.address).Nodup)
    (root : ObjectUri) (token : Option String) :
    (store.listed root token).Pairwise fun a b => store.isBefore a.key b.key = true := by
  have hkeys : ((store.listed root token).map (·.key)).Nodup := by
    rw [listed, ((List.mergeSort_perm _ _).map _).nodup_iff, List.map_map, List.Nodup,
      List.pairwise_map]
    have hapart := List.pairwise_map.mp h
    refine (List.Pairwise.and_mem.mp (hapart.filter _)).imp fun {a b} hab hkey => ?_
    have ha := covers_of_isListed (List.mem_filter.mp hab.1).2
    have hb := covers_of_isListed (List.mem_filter.mp hab.2.1).2
    exact hab.2.2 (Prod.ext (ha.1.trans hb.1.symm) hkey)
  refine ((pairwise_listed store root token).and (List.pairwise_map.mp hkeys)).imp
    fun {a b} hab => ?_
  rcases eq_or_isBefore store a.key b.key with heq | hbefore | hbehind
  · exact absurd heq hab.2
  · exact hbefore
  · rw [hbehind] at hab
    exact absurd hab.1 (by decide)

/-- What a listing has behind one of its keys is what comes after it. -/
theorem listed_behind (h : (store.objects.map StoredObject.address).Nodup)
    {front back : List ObjectSummary} {last : ObjectSummary}
    (hsplit : store.listed root token = front ++ last :: back) :
    store.listed root (some last.key) = back := by
  have hordered := pairwise_isBefore_listed h root token
  rw [hsplit, List.pairwise_append, List.pairwise_cons] at hordered
  rcases hordered with ⟨_, ⟨hafter, hback⟩, hacross⟩
  have hbehind := pairwise_isBefore_listed h root (some last.key)
  have hnodup : ∀ {summaries : List ObjectSummary},
      (summaries.Pairwise fun a b => store.isBefore a.key b.key = true) → summaries.Nodup :=
    fun hpairs => hpairs.imp fun {a b} hab heq => by
      rw [heq, isBefore_irrefl] at hab
      exact absurd hab (by decide)
  refine List.Perm.eq_of_pairwise (fun a b _ _ hab hba => ?_) hbehind hback
    ((List.perm_ext_iff_of_nodup (hnodup hbehind) (hnodup hback)).mpr fun summary => ?_)
  · rw [isBefore_asymm hab] at hba
    exact absurd hba (by decide)
  have hlast : last ∈ store.listed root token := by
    rw [hsplit]
    exact List.mem_append_right _ List.mem_cons_self
  constructor
  · intro hmem
    rcases mem_listed.mp hmem with ⟨object, hobject, hlisted, rfl⟩
    rcases (isListed_some _ _).mp hlisted with ⟨hcovers, hkey⟩
    -- What is behind the key was to come from the earlier cursor as well.
    have hearlier : store.isListed root token object = true := by
      rcases mem_listed.mp hlast with ⟨other, _, hother, rfl⟩
      cases token with
      | none => exact (isListed_none object).mpr hcovers
      | some cursor =>
          exact (isListed_some cursor object).mpr
            ⟨hcovers, isBefore_trans ((isListed_some cursor other).mp hother).2 hkey⟩
    have hin := mem_listed.mpr ⟨object, hobject, hearlier, rfl⟩
    rw [hsplit, List.mem_append, List.mem_cons] at hin
    rcases hin with hfront | heq | hin
    · have hbefore : store.isBefore object.key last.key = true :=
        hacross _ hfront last List.mem_cons_self
      rw [isBefore_asymm hkey] at hbefore
      exact absurd hbefore (by decide)
    · have hself : store.isBefore object.key object.key = true := by
        rwa [← heq] at hkey
      rw [isBefore_irrefl] at hself
      exact absurd hself (by decide)
    · exact hin
  · intro hmem
    have hin : summary ∈ store.listed root token := by
      rw [hsplit]
      exact List.mem_append_right _ (List.mem_cons_of_mem _ hmem)
    rcases mem_listed.mp hin with ⟨object, hobject, hlisted, rfl⟩
    exact mem_listed.mpr ⟨object, hobject,
      (isListed_some _ _).mpr ⟨covers_of_isListed hlisted, hafter _ hmem⟩, rfl⟩

/-- A page has what comes first, and leaves what is behind its cursor. -/
theorem listed_eq_page_append (h : (store.objects.map StoredObject.address).Nodup)
    (hsize : 0 < store.pageSize) (root : ObjectUri) (token : Option String) :
    store.listed root token = (store.page root token).objects ++
        (store.page root token).nextToken.elim [] (fun next => store.listed root (some next)) ∧
      ((store.page root token).nextToken ≠ none → (store.page root token).objects ≠ []) := by
  unfold page
  by_cases hmore : store.pageSize < (store.listed root token).length
  · have hfull : (store.listed root token).take store.pageSize ≠ [] := by
      rw [ne_eq, List.take_eq_nil_iff, not_or]
      exact ⟨Nat.ne_of_gt hsize, List.ne_nil_of_length_pos (Nat.lt_trans hsize hmore)⟩
    simp only [if_pos hmore, List.getLast?_eq_some_getLast hfull, Option.map_some, Option.elim_some]
    refine ⟨?_, fun _ => hfull⟩
    have hsplit : store.listed root token =
        ((store.listed root token).take store.pageSize).dropLast ++
          ((store.listed root token).take store.pageSize).getLast hfull ::
            (store.listed root token).drop store.pageSize := by
      rw [List.append_cons, List.dropLast_append_getLast, List.take_append_drop]
    rw [listed_behind h hsplit, List.take_append_drop]
  · simp only [if_neg hmore, Option.elim_none, List.append_nil]
    exact ⟨(List.take_of_length_le (Nat.le_of_not_lt hmore)).symm, fun hno => absurd rfl hno⟩

end MemoryStore

/-- Faults of other calls do not strike. -/
theorem StoreFault.strike_of_others {method : StoreMethod} (subject : String)
    {faults : List StoreFault} (h : ∀ fault ∈ faults, fault.method ≠ method) :
    strike method subject faults = (none, faults) := by
  induction faults with
  | nil => rfl
  | cons fault rest ih =>
      have hfirst : fault.concerns method subject = false := by
        have hne := h fault List.mem_cons_self
        simp only [concerns, Bool.and_eq_false_iff, beq_eq_false_iff_ne, ne_eq]
        exact Or.inl (Or.inl hne)
      rw [strike, hfirst, ih fun other hother => h other (List.mem_cons_of_mem _ hother)]
      rfl

namespace Rehearsal

/-- A page of a store in memory, unless a fault strikes it. -/
theorem reply_list {state : Rehearsal} (h : ∀ fault ∈ state.store.faults, fault.method ≠ .list)
    (root : ObjectUri) (token : Option String) :
    service.reply (.list root token) state =
      { delay := some Span.zero
        abandoned := state
        settled := state
        answer := .ok (state.store.page root token)
        cancels := false } := by
  have hstrike := StoreFault.strike_of_others root.listing h
  simp only [service, reply, ofStore, MemoryStore.reply, MemoryStore.subject?, hstrike,
    MemoryStore.answer, MemoryStore.apply, Option.bind_none, Option.map_none, Option.getD_none]

/-- The catalogue of a store in memory whose pages are not empty, as long as no
    fault strikes a listing. -/
def catalogue : Catalogue service where
  Open state := 0 < state.store.pageSize ∧
    (state.store.objects.map StoredObject.address).Nodup ∧
    ∀ fault ∈ state.store.faults, fault.method ≠ .list
  objects state := state.store.objects
  ahead state root token := state.store.listed root token
  apart hopen := hopen.2.1
  whole {state} _ root := by
    refine (List.mergeSort_perm _ _).trans (List.Perm.of_eq ?_)
    congr 1
    refine List.filter_congr fun object _ => ?_
    rw [Bool.eq_iff_iff, MemoryStore.isListed_none, decide_eq_true_eq]
  page {state} hopen root token := by
    rw [reply_list hopen.2.2]
    exact ⟨_, rfl, MemoryStore.listed_eq_page_append hopen.2.1 hopen.1 root token⟩
  answered hopen root token := by
    rw [reply_list hopen.2.2]
    exact Option.some_ne_none _
  kept hopen root token := by
    rw [reply_list hopen.2.2]
    exact ⟨hopen, rfl, rfl⟩

end Rehearsal

end BatchRun
