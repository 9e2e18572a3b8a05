import BatchRun.Proofs.Logs.Store

/-!
# Batches of Log Lines

What a reader knows of the logs while they grow.

A reader takes what a store of growing logs shows it, in any number of batches,
some of which may fail in part or as a whole. At every moment its cursors know
the logs they belong to, so that the share of a log in what was delivered are
the first of its finished lines.

## Main definitions

* `LogStore.Holds`: The cursors of a reader know the logs.
* `LogStore.Fetched`: What getting a log comes to.

## Theorems

* `LogStore.fetched_of_fetch`: What is got of a log that was listed.
* `LogStore.holds_of_fetch`, `LogStore.holds_of_readObject`,
  `LogStore.holds_of_readObjects`, `LogStore.holds_of_read`: The cursors know the
  logs after every step of a batch.
* `LogStore.holds_of_reading`: They do after any sequence of batches.
-/

namespace BatchRun

namespace LogStore

variable {σ : Type} {service : Service σ} {root : ObjectUri}

/-- Each cursor of a reader knows the log it belongs to, whose share is given. -/
def Holds (store : LogStore service root) (state : σ) (cursors : Table String LogCursor)
    (share : String → List String) : Prop :=
  ∀ key, LogCursor.Knows key (store.versions state key) (cursors.get? key) (share key)

theorem holds_mono (store : LogStore service root) {state next : σ}
    (h : ∀ key, store.versions state key <+: store.versions next key)
    {cursors : Table String LogCursor} {share : String → List String}
    (hholds : store.Holds state cursors share) : store.Holds next cursors share :=
  fun key => LogCursor.knows_mono (h key) (hholds key)

/-- What getting a listed log comes to: nothing, if that fails or what comes is
    unreadable, or else the text of a version that is no older than the one that
    was listed. -/
inductive Fetched (store : LogStore service root) (flush : Bool) (object : ObjectSummary)
    (source : LogSource) (state next : σ) (cursors : Table String LogCursor) :
    List LogLine → Table String LogCursor → Prop
  | nothing (h : ∀ body, (service.reply (.get { root with key := object.key }) state).answer =
      .ok body → LogCursor.decode? object.key body = none) :
      Fetched store flush object source state next cursors [] cursors
  | version {i j : Nat} {v w : LogVersion} {bytes : Bytes} (hij : i ≤ j)
      (hv : (store.versions next object.key)[i]? = some v) (hlisted : v.IsListedAs object)
      (hw : (store.versions next object.key)[j]? = some w)
      (hbytes : w.content? object.key = some bytes) :
      Fetched store flush object source state next cursors
        (LogReader.linesOf source (((cursors.get? object.key).getD LogCursor.start).advance
          object (Utf8.lossyChars bytes) flush).1)
        (cursors.put object.key (((cursors.get? object.key).getD LogCursor.start).advance
          object (Utf8.lossyChars bytes) flush).2)

theorem fetched_of_fetch (store : LogStore service root) (tree : FileTree) (limit : Nat)
    {flush : Bool} {cursors after : Table String LogCursor} {object : ObjectSummary}
    {source : LogSource} (hkey : root.withKey object.key = { root with key := object.key })
    (hsource : LogSource.ofKey? root.listing object.key = some source)
    {session next : Session σ} {lines : List LogLine}
    (hshown : store.Shown session.state object)
    (h : LogReader.fetch (Session.host service tree limit) root flush cursors
      object source session = (some (lines, after), next)) :
    (service.reply (.get { root with key := object.key }) session.state).settled = next.state ∧
      store.Fetched flush object source session.state next.state cursors lines after := by
  rcases Action.eq_of_bind h with ⟨reply, middle, hcall, hrest⟩
  rw [hkey] at hcall
  rcases Session.eq_of_ask hcall with ⟨hanswer, hsettled⟩
  cases reply with
  | error fault =>
      rcases Action.eq_of_pure hrest with ⟨hpair, rfl⟩
      rw [Prod.mk.injEq] at hpair
      rw [← hpair.1, ← hpair.2]
      refine ⟨hsettled, Fetched.nothing (fun body hbody => ?_)⟩
      rw [hanswer] at hbody
      exact absurd hbody (by simp only [reduceCtorEq, not_false_eq_true])
  | ok body =>
      cases hdecode : LogCursor.decode? object.key body with
      | none =>
          simp only [hdecode] at hrest
          rcases Action.eq_of_pure hrest with ⟨hpair, rfl⟩
          rw [Prod.mk.injEq] at hpair
          rw [← hpair.1, ← hpair.2]
          refine ⟨hsettled, Fetched.nothing (fun other hother => ?_)⟩
          rw [hanswer, Except.ok.injEq] at hother
          rw [← hother]
          exact hdecode
      | some text =>
          simp only [hdecode] at hrest
          rcases Action.eq_of_pure hrest with ⟨hpair, rfl⟩
          rw [Prod.mk.injEq] at hpair
          have hlog : IsLog root object.key := ⟨source, hsource⟩
          rcases hshown hlog with ⟨i, v, hi, hv, hlisted⟩
          rcases store.fetched _ _ _ hlog hanswer with hbad | ⟨j, w, hj, hw, hbody⟩
          · rw [hdecode] at hbad
            exact absurd hbad (by simp only [reduceCtorEq, not_false_eq_true])
          -- The body is that of a version, so its text is that of the version.
          rw [← hbody, LogVersion.decode?_eq, Option.map_eq_some_iff] at hdecode
          rcases hdecode with ⟨bytes, hbytes, rfl⟩
          have hv' := LogVersion.getElem?_mono (store.kept
            (.get { root with key := object.key }) session.state object.key) hv
          rw [hsettled] at hw hv'
          rw [← hpair.1, ← hpair.2]
          exact ⟨hsettled, Fetched.version (Nat.le_trans hi hj) hv' hlisted hw hbytes⟩

/-- A new cursor for one log knows it if it knows its new share. -/
theorem holds_put (store : LogStore service root) {state : σ} {cursors : Table String LogCursor}
    {share : String → List String} (h : store.Holds state cursors share) {key : String}
    {cursor : LogCursor} {messages : List String}
    (hcursor : LogCursor.Tracks key (store.versions state key) cursor (share key ++ messages)) :
    store.Holds state (cursors.put key cursor)
      (Function.update share key (share key ++ messages)) := by
  intro other
  by_cases ho : other = key
  · rw [ho, Table.get?_put_self, Function.update_self]
    exact hcursor
  · rw [Table.get?_put_of_ne ho, Function.update_of_ne ho]
    exact h other

/-- Getting a log keeps the cursors knowing, and the new lines are its own. -/
theorem holds_of_fetch (store : LogStore service root) (tree : FileTree) (limit : Nat)
    {cursors after : Table String LogCursor} {object : ObjectSummary} {source : LogSource}
    (hkey : root.withKey object.key = { root with key := object.key })
    (hsource : LogSource.ofKey? root.listing object.key = some source)
    {session next : Session σ} {lines delivered : List LogLine} {share : String → List String}
    (hshown : store.Shown session.state object) (hshare : Interleaved root share delivered)
    (hholds : store.Holds session.state cursors share)
    (h : LogReader.fetch (Session.host service tree limit) root false cursors
      object source session = (some (lines, after), next)) :
    store.Advances session.state next.state ∧
      ∃ share', Interleaved root share' (delivered ++ lines) ∧
        store.Holds next.state after share' := by
  rcases store.fetched_of_fetch tree limit hkey hsource hshown h with ⟨hsettled, hfetched⟩
  have hadvances : store.Advances session.state next.state := by
    rw [← hsettled]
    exact store.advances_of_reply (by simp only [ne_eq, reduceCtorEq, not_false_eq_true]) _
  -- A writer may have come in during the get, so the cursors are moved behind it first.
  have hmoved := store.holds_mono (fun key => (hadvances key).1) hholds
  refine ⟨hadvances, ?_⟩
  cases hfetched with
  | nothing _ => exact ⟨share, by rwa [List.append_nil], hmoved⟩
  | version hij hv hlisted hw hbytes =>
      exact ⟨_, hshare.append hsource _, store.holds_put hmoved (LogCursor.tracks_advance
        (store.grown _ _ ⟨source, hsource⟩) (hmoved object.key) hij hv hlisted hw hbytes)⟩

/-- Reading an object while more can come keeps the cursors knowing. -/
theorem holds_of_readObject (store : LogStore service root) (tree : FileTree) (limit : Nat)
    (hplace : ∀ key, IsLog root key → root.withKey key = { root with key })
    {cursors after : Table String LogCursor} {object : ObjectSummary}
    {session next : Session σ} {lines delivered : List LogLine} {share : String → List String}
    (hshown : store.Shown session.state object) (hshare : Interleaved root share delivered)
    (hholds : store.Holds session.state cursors share)
    (h : LogReader.readObject (Session.host service tree limit) root false cursors object session =
      (some (lines, after), next)) :
    store.Advances session.state next.state ∧
      ∃ share', Interleaved root share' (delivered ++ lines) ∧
        store.Holds next.state after share' := by
  -- An object that is not got, because it is no log or as it was, leaves everything as it is.
  have hidle : ∀ {lines after next}, (pure ([], cursors) : Action σ _) session =
      (some (lines, after), next) → store.Advances session.state next.state ∧
        ∃ share', Interleaved root share' (delivered ++ lines) ∧
          store.Holds next.state after share' := by
    intro lines after next hpure
    rcases Action.eq_of_pure hpure with ⟨hpair, rfl⟩
    rw [Prod.mk.injEq] at hpair
    rw [← hpair.1, ← hpair.2, List.append_nil]
    exact ⟨fun key => ⟨List.prefix_rfl, Nat.le_refl _⟩, share, hshare, hholds⟩
  unfold LogReader.readObject at h
  cases hsource : LogSource.ofKey? root.listing object.key with
  | none =>
      simp only [hsource] at h
      exact hidle h
  | some source =>
      have hkey := hplace object.key ⟨source, hsource⟩
      simp only [hsource] at h
      cases hcursor : cursors.get? object.key with
      | none =>
          simp only [hcursor] at h
          exact store.holds_of_fetch tree limit hkey hsource hshown hshare hholds h
      | some cursor =>
          simp only [hcursor, Bool.false_eq_true, if_false] at h
          by_cases hcurrent : cursor.isCurrent object = true
          · rw [if_pos hcurrent] at h
            exact hidle h
          · rw [if_neg hcurrent] at h
            exact store.holds_of_fetch tree limit hkey hsource hshown hshare hholds h

/-- Reading listed objects one after the other keeps the cursors knowing. -/
theorem holds_of_readObjects (store : LogStore service root) (tree : FileTree) (limit : Nat)
    (hplace : ∀ key, IsLog root key → root.withKey key = { root with key })
    {objects : List ObjectSummary} {cursors after : Table String LogCursor}
    {session next : Session σ} {lines delivered : List LogLine} {share : String → List String}
    (hshown : ∀ object ∈ objects, store.Shown session.state object)
    (hshare : Interleaved root share delivered) (hholds : store.Holds session.state cursors share)
    (h : LogReader.readObjects (Session.host service tree limit) root false cursors objects
      session = (some (lines, after), next)) :
    ∃ share', Interleaved root share' (delivered ++ lines) ∧
      store.Holds next.state after share' := by
  induction objects generalizing cursors session lines delivered share with
  | nil =>
      rcases Action.eq_of_pure h with ⟨hpair, rfl⟩
      rw [Prod.mk.injEq] at hpair
      rw [← hpair.1, ← hpair.2, List.append_nil]
      exact ⟨share, hshare, hholds⟩
  | cons object rest ih =>
      rcases Action.eq_of_bind h with ⟨⟨new, between⟩, middle, hobject, hrest⟩
      rcases Action.eq_of_bind hrest with ⟨⟨more, last⟩, final, hmore, hpure⟩
      rcases Action.eq_of_pure hpure with ⟨hpair, rfl⟩
      rw [Prod.mk.injEq] at hpair
      rcases store.holds_of_readObject tree limit hplace (hshown object List.mem_cons_self) hshare
        hholds hobject with ⟨hadvances, share', hshare', hholds'⟩
      -- Nothing older is served while objects are got, so the listing still holds for the rest.
      have hshown' : ∀ other ∈ rest, store.Shown middle.state other := fun other hother =>
        store.shown_mono hadvances (hshown other (List.mem_cons_of_mem _ hother))
      rw [hpair.2] at hmore
      rcases ih hshown' hshare' hholds' hmore with ⟨final', hfinal⟩
      rw [← hpair.1, ← List.append_assoc]
      exact ⟨final', hfinal⟩

/-- A batch keeps the cursors knowing, whatever fails in it. -/
theorem holds_of_read (store : LogStore service root) (tree : FileTree) (limit : Nat)
    (hplace : ∀ key, IsLog root key → root.withKey key = { root with key })
    {reader after : LogReader} (hroot : reader.root = some root) {session next : Session σ}
    {lines delivered : List LogLine} {share : String → List String}
    (hshare : Interleaved root share delivered)
    (hholds : store.Holds session.state reader.cursors share)
    (h : LogReader.read (Session.host service tree limit) false reader session =
      (some (lines, after), next)) :
    after.root = some root ∧ ∃ share', Interleaved root share' (delivered ++ lines) ∧
      store.Holds next.state after.cursors share' := by
  unfold LogReader.read at h
  simp only [hroot] at h
  rcases Action.eq_of_bind h with ⟨answer, listed, hlist, hrest⟩
  -- All pages are one listing, which starts with nothing found.
  rcases store.shown_of_listAll tree limit _ none [] session listed answer (fun _ => rfl)
    (fun object hno => absurd hno List.not_mem_nil) hlist with ⟨hkept, hshown⟩
  have hmoved := store.holds_mono hkept hholds
  cases answer with
  | error fault =>
      rcases Action.eq_of_pure hrest with ⟨hpair, rfl⟩
      rw [Prod.mk.injEq] at hpair
      rw [← hpair.1, ← hpair.2, List.append_nil]
      exact ⟨hroot, share, hshare, hmoved⟩
  | ok objects =>
      rcases Action.eq_of_bind hrest with ⟨⟨new, cursors⟩, final, hread, hpure⟩
      rcases Action.eq_of_pure hpure with ⟨hpair, rfl⟩
      rw [Prod.mk.injEq] at hpair
      rw [← hpair.1, ← hpair.2]
      exact ⟨rfl, store.holds_of_readObjects tree limit hplace
        (fun object hobject => hshown objects rfl object (List.mem_mergeSort.mp hobject))
        hshare hmoved hread⟩

/-- After any sequence of batches the cursors know the logs. -/
theorem holds_of_reading (store : LogStore service root) (tree : FileTree) (limit : Nat)
    (hplace : ∀ key, IsLog root key → root.withKey key = { root with key })
    {reader : LogReader} {session : Session σ} {lines : List LogLine}
    (h : Reading store tree limit ⟨some root, []⟩ reader session lines) :
    reader.root = some root ∧ ∃ share, Interleaved root share lines ∧
      store.Holds session.state reader.cursors share := by
  induction h with
  | start session => exact ⟨rfl, fun _ => [], Interleaved.nil, fun key => rfl⟩
  | meanwhile _ next hkept ih =>
      rcases ih with ⟨hroot, share, hshare, hholds⟩
      exact ⟨hroot, share, hshare, store.holds_mono hkept hholds⟩
  | batch _ hread ih =>
      rcases ih with ⟨hroot, share, hshare, hholds⟩
      exact store.holds_of_read tree limit hplace hroot hshare hholds hread

end LogStore

end BatchRun
