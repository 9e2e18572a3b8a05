import BatchRun.Proofs.Logs.Batch

/-!
# The Last Reading of the Logs

What a reader does when nothing more can come.

The last reading takes the logs as they will be for good. One that is not as it
was is got once more, and since what comes is what was listed, the rest of its
lines are delivered. Of one that is as it was, only the line that was held back
is left. Either way nothing more is to be had of it.

A listing may show an object twice. The second time it is as it was, and has
nothing to add.

## Main definitions

* `LogStore.Exhausted`: A log was read for the last time.
* `LogStore.Draining`: Each log was, or is still known.

## Theorems

* `LogStore.exhausts_of_current`: Of a log that is as it was.
* `LogStore.exhausted_of_fetch`, `LogStore.exhausted_of_readObject`: Reading one
  log for the last time.
* `LogStore.fetch_arrives`, `LogStore.readObject_arrives`: It comes to its end.
* `LogStore.exhausted_of_readObjects`: The last reading of all listed logs.
-/

namespace BatchRun

namespace LogStore

variable {σ : Type} {service : Service σ} {root : ObjectUri}

/-- A log was read for the last time. -/
def Exhausted (store : LogStore service root) (state : σ) (cursors : Table String LogCursor)
    (share : String → List String) (key : String) : Prop :=
  ∃ cursor, cursors.get? key = some cursor ∧
    LogCursor.Exhausts key (store.versions state key) cursor (share key)

/-- Each log was read for the last time, or its cursor still knows it. -/
def Draining (store : LogStore service root) (state : σ) (cursors : Table String LogCursor)
    (share : String → List String) : Prop :=
  ∀ key, store.Exhausted state cursors share key ∨
    LogCursor.Knows key (store.versions state key) (cursors.get? key) (share key)

/-- A new cursor for one log that was read for the last time leaves the other
    logs as they are. -/
theorem draining_put (store : LogStore service root) {state : σ}
    {cursors : Table String LogCursor} {share : String → List String}
    (h : store.Draining state cursors share) {key : String} {cursor : LogCursor}
    {messages : List String} (hcursor : LogCursor.Exhausts key (store.versions state key) cursor
      (share key ++ messages)) :
    store.Draining state (cursors.put key cursor)
        (Function.update share key (share key ++ messages)) ∧
      store.Exhausted state (cursors.put key cursor)
        (Function.update share key (share key ++ messages)) key ∧
      ∀ other, store.Exhausted state cursors share other →
        store.Exhausted state (cursors.put key cursor)
          (Function.update share key (share key ++ messages)) other := by
  have hself : store.Exhausted state (cursors.put key cursor)
      (Function.update share key (share key ++ messages)) key :=
    ⟨cursor, Table.get?_put_self _ _ _, by rwa [Function.update_self]⟩
  refine ⟨fun other => ?_, hself, fun other hother => ?_⟩
  · by_cases ho : other = key
    · exact Or.inl (ho ▸ hself)
    · rw [Exhausted, Table.get?_put_of_ne ho, Function.update_of_ne ho]
      exact h other
  · by_cases ho : other = key
    · exact ho ▸ hself
    · rw [Exhausted, Table.get?_put_of_ne ho, Function.update_of_ne ho]
      exact hother

/-- A log without a cursor was never read. -/
theorem knows_of_unread (store : LogStore service root) {state : σ}
    {cursors : Table String LogCursor} {share : String → List String}
    (h : store.Draining state cursors share) {key : String} (hcursor : cursors.get? key = none) :
    LogCursor.Knows key (store.versions state key) (cursors.get? key) (share key) := by
  rcases h key with ⟨cursor, hsome, _⟩ | hknows
  · rw [hcursor] at hsome
    exact absurd hsome (by simp only [reduceCtorEq, not_false_eq_true])
  · exact hknows

/-- A log that is not as it was, in its last version, was not yet read for the
    last time. -/
theorem knows_of_changed (store : LogStore service root) {state : σ}
    {cursors : Table String LogCursor} {share : String → List String}
    (h : store.Draining state cursors share) {object : ObjectSummary} {last : LogVersion}
    (hlast : (store.versions state object.key).getLast? = some last)
    (hlisted : last.IsListedAs object) {cursor : LogCursor}
    (hcursor : cursors.get? object.key = some cursor)
    (hchanged : ¬ cursor.isCurrent object = true) :
    LogCursor.Knows object.key (store.versions state object.key) (cursors.get? object.key)
      (share object.key) := by
  rcases h object.key with ⟨other, hsome, hdone⟩ | hknows
  · rcases hdone.current with ⟨last', hlast', hsize, hetag⟩
    rw [hlast, Option.some.injEq] at hlast'
    rw [hcursor, Option.some.injEq] at hsome
    rw [← hlast', ← hsome] at hsize hetag
    refine absurd ?_ hchanged
    rw [LogCursor.isCurrent, Bool.and_eq_true, beq_iff_eq, beq_iff_eq]
    exact ⟨hsize.symm.trans hlisted.1, hetag.symm.trans hlisted.2⟩
  · exact hknows

/-- Of a log that is as it was, in its last version, only what was held back is
    left. -/
theorem exhausts_of_current (store : LogStore service root) {state : σ}
    (htold : store.ToldApart state)
    {cursors : Table String LogCursor} {share : String → List String}
    (h : store.Draining state cursors share) {object : ObjectSummary}
    (hlog : IsLog root object.key) {last : LogVersion} {content : Bytes}
    (hlast : (store.versions state object.key).getLast? = some last)
    (hlisted : last.IsListedAs object) (hcontent : last.content? object.key = some content)
    {cursor : LogCursor} (hcursor : cursors.get? object.key = some cursor)
    (hcurrent : cursor.isCurrent object = true) :
    LogCursor.Exhausts object.key (store.versions state object.key) cursor.release.2
      (share object.key ++ cursor.release.1) := by
  rw [LogCursor.isCurrent, Bool.and_eq_true, beq_iff_eq, beq_iff_eq] at hcurrent
  -- A log that was exhausted before has nothing held back.
  rcases h object.key with ⟨other, hsome, hdone⟩ | hknows
  · rw [hcursor, Option.some.injEq] at hsome
    rw [hsome]
    exact LogCursor.exhausts_again hdone
  · rw [hcursor] at hknows
    exact LogCursor.exhausts_release (store.grown state object.key hlog)
      (htold object.key hlog) hlast hcontent hknows (hlisted.1.trans hcurrent.1.symm)
      (hlisted.2.trans hcurrent.2.symm)

/-- Getting a log for the last time exhausts it, and leaves exhausted what was.
    What comes is the last version, since it is the one that was listed. -/
theorem exhausted_of_fetch (store : LogStore service root) (tree : FileTree) (limit : Nat)
    (hplace : ∀ key, IsLog root key → root.withKey key = { root with key })
    {state : σ} (htold : store.ToldApart state) {objects : List ObjectSummary}
    (hcomplete : store.Complete state objects) {object : ObjectSummary} (hmem : object ∈ objects)
    {source : LogSource} (hsource : LogSource.ofKey? root.listing object.key = some source)
    {cursors after : Table String LogCursor} {session next : Session σ}
    (hfetching : Fetching service state session.state)
    (hshown : store.Shown session.state object) {lines delivered : List LogLine}
    {share : String → List String} (hshare : Interleaved root share delivered)
    (hdraining : store.Draining state cursors share)
    (hknows : LogCursor.Knows object.key (store.versions state object.key)
      (cursors.get? object.key) (share object.key))
    (h : LogReader.fetch (Session.host service tree limit) root true cursors object source session =
      (some (lines, after), next)) :
    (store.Advances session.state next.state ∧ Fetching service state next.state) ∧
      ∃ share', Interleaved root share' (delivered ++ lines) ∧
        store.Draining state after share' ∧
        store.Exhausted state after share' object.key ∧
        ∀ other, store.Exhausted state cursors share other →
          store.Exhausted state after share' other := by
  have hlog : IsLog root object.key := ⟨source, hsource⟩
  rcases store.fetched_of_fetch tree limit (hplace _ hlog) hsource hshown h with
    ⟨hsettled, hfetched⟩
  have hnext : Fetching service state next.state := by
    rw [← hsettled]
    exact hfetching.step _
  have hadvances : store.Advances session.state next.state := by
    rw [← hsettled]
    exact store.advances_of_reply (by simp only [ne_eq, reduceCtorEq, not_false_eq_true]) _
  refine ⟨⟨hadvances, hnext⟩, ?_⟩
  cases hfetched with
  | nothing hbad =>
      -- A complete store answers every get with something readable.
      rcases hcomplete.answered _ hfetching object hmem hlog with ⟨_, body, hbody, hgood⟩
      exact absurd (hbad body hbody) hgood
  | version hij hv hv' hw hbytes =>
      -- Nothing is written any more, so the version that came is one of those that are there.
      rw [hcomplete.still _ hnext] at hv hw
      rcases hcomplete.current object hmem hlog with ⟨last, content, hlast, hlisted, hcontent⟩
      exact ⟨_, hshare.append hsource _, store.draining_put hdraining
        (LogCursor.exhausts_advance (store.grown state object.key hlog)
          (htold object.key hlog) hlast hcontent hlisted hknows hij hv hv' hw hbytes)⟩

/-- Reading an object for the last time exhausts it, if it is a log, and leaves
    exhausted what was. -/
theorem exhausted_of_readObject (store : LogStore service root) (tree : FileTree) (limit : Nat)
    (hplace : ∀ key, IsLog root key → root.withKey key = { root with key })
    {state : σ} (htold : store.ToldApart state) {objects : List ObjectSummary}
    (hcomplete : store.Complete state objects) {object : ObjectSummary} (hmem : object ∈ objects)
    {cursors after : Table String LogCursor} {session next : Session σ}
    (hfetching : Fetching service state session.state)
    (hshown : store.Shown session.state object) {lines delivered : List LogLine}
    {share : String → List String} (hshare : Interleaved root share delivered)
    (hdraining : store.Draining state cursors share)
    (h : LogReader.readObject (Session.host service tree limit) root true cursors object session =
      (some (lines, after), next)) :
    (store.Advances session.state next.state ∧ Fetching service state next.state) ∧
      ∃ share', Interleaved root share' (delivered ++ lines) ∧
        store.Draining state after share' ∧
        (IsLog root object.key → store.Exhausted state after share' object.key) ∧
        ∀ other, store.Exhausted state cursors share other →
          store.Exhausted state after share' other := by
  have hstay : store.Advances session.state session.state :=
    fun key => ⟨List.prefix_rfl, Nat.le_refl _⟩
  unfold LogReader.readObject at h
  cases hsource : LogSource.ofKey? root.listing object.key with
  | none =>
      -- What is no log has nothing to exhaust.
      simp only [hsource] at h
      rcases Action.eq_of_pure h with ⟨hpair, rfl⟩
      rw [Prod.mk.injEq] at hpair
      rw [← hpair.1, ← hpair.2, List.append_nil]
      refine ⟨⟨hstay, hfetching⟩, share, hshare, hdraining, fun hlog => ?_, fun _ hother => hother⟩
      rcases hlog with ⟨source, hsome⟩
      rw [hsource] at hsome
      exact absurd hsome (by simp only [reduceCtorEq, not_false_eq_true])
  | some source =>
      have hlog : IsLog root object.key := ⟨source, hsource⟩
      rcases hcomplete.current object hmem hlog with ⟨last, content, hlast, hlisted, hcontent⟩
      simp only [hsource] at h
      cases hcursor : cursors.get? object.key with
      | none =>
          simp only [hcursor] at h
          rcases store.exhausted_of_fetch tree limit hplace htold hcomplete hmem hsource hfetching
            hshown hshare hdraining (store.knows_of_unread hdraining hcursor) h with
            ⟨hsteps, share', hshare', hall, hself, hothers⟩
          exact ⟨hsteps, share', hshare', hall, fun _ => hself, hothers⟩
      | some cursor =>
          simp only [hcursor, if_true] at h
          by_cases hcurrent : cursor.isCurrent object = true
          · rw [if_pos hcurrent] at h
            rcases Action.eq_of_pure h with ⟨hpair, rfl⟩
            rw [Prod.mk.injEq] at hpair
            rcases store.draining_put hdraining (store.exhausts_of_current htold hdraining hlog
              hlast hlisted hcontent hcursor hcurrent) with ⟨hall, hself, hothers⟩
            rw [← hpair.1, ← hpair.2]
            exact ⟨⟨hstay, hfetching⟩, _, hshare.append hsource _, hall, fun _ => hself, hothers⟩
          · -- What is not as it was cannot have been exhausted, so its cursor still knows it.
            rw [if_neg hcurrent] at h
            rcases store.exhausted_of_fetch tree limit hplace htold hcomplete hmem hsource hfetching
              hshown hshare hdraining
              (store.knows_of_changed hdraining hlast hlisted hcursor hcurrent) h with
              ⟨hsteps, share', hshare', hall, hself, hothers⟩
            exact ⟨hsteps, share', hshare', hall, fun _ => hself, hothers⟩

/-- Getting a log comes to its end if the answer comes, and sets no limit. -/
theorem fetch_arrives {store : LogStore service root} (tree : FileTree) (limit : Nat)
    {state : σ} {objects : List ObjectSummary} (hcomplete : store.Complete state objects)
    {object : ObjectSummary} (hmem : object ∈ objects) {source : LogSource}
    (hkey : root.withKey object.key = { root with key := object.key })
    (hsource : LogSource.ofKey? root.listing object.key = some source)
    (flush : Bool) (cursors : Table String LogCursor) {session : Session σ}
    (hfetching : Fetching service state session.state) (hlimit : session.deadline = none) :
    ∃ read next, LogReader.fetch (Session.host service tree limit) root flush cursors object source
      session = (some read, next) ∧ next.deadline = none := by
  rcases hcomplete.answered _ hfetching object hmem ⟨source, hsource⟩ with ⟨hdelay, _, _, _⟩
  rcases Option.ne_none_iff_exists'.mp hdelay with ⟨span, hspan⟩
  have hcall : (Session.host service tree limit).call (.get { root with key := object.key })
      session = _ := Session.ask_of_delay hlimit hspan
  unfold LogReader.fetch
  rw [hkey, Action.bind_of_some hcall]
  cases (service.reply (.get { root with key := object.key }) session.state).answer with
  | error fault => exact ⟨_, _, rfl, hlimit⟩
  | ok body =>
      simp only
      cases LogCursor.decode? object.key body with
      | none => exact ⟨_, _, rfl, hlimit⟩
      | some text => exact ⟨_, _, rfl, hlimit⟩

/-- Reading an object comes to its end if getting it does, and sets no limit. -/
theorem readObject_arrives {store : LogStore service root} (tree : FileTree) (limit : Nat)
    (hplace : ∀ key, IsLog root key → root.withKey key = { root with key })
    {state : σ} {objects : List ObjectSummary} (hcomplete : store.Complete state objects)
    {object : ObjectSummary} (hmem : object ∈ objects) (cursors : Table String LogCursor)
    {session : Session σ} (hfetching : Fetching service state session.state)
    (hlimit : session.deadline = none) :
    ∃ read next, LogReader.readObject (Session.host service tree limit) root true cursors object
      session = (some read, next) ∧ next.deadline = none := by
  unfold LogReader.readObject
  cases hsource : LogSource.ofKey? root.listing object.key with
  | none => exact ⟨_, _, rfl, hlimit⟩
  | some source =>
      have hfetch := fetch_arrives tree limit hcomplete hmem (hplace _ ⟨source, hsource⟩) hsource
        true cursors hfetching hlimit
      simp only
      cases cursors.get? object.key with
      | none => exact hfetch
      | some cursor =>
          simp only [if_true]
          by_cases hcurrent : cursor.isCurrent object = true
          · rw [if_pos hcurrent]
            exact ⟨_, _, rfl, hlimit⟩
          · rw [if_neg hcurrent]
            exact hfetch

/-- The last reading of all listed objects comes to its end, and exhausts every
    log among them. -/
theorem exhausted_of_readObjects (store : LogStore service root) (tree : FileTree) (limit : Nat)
    (hplace : ∀ key, IsLog root key → root.withKey key = { root with key })
    {state : σ} (htold : store.ToldApart state) {objects : List ObjectSummary}
    (hcomplete : store.Complete state objects) {rest : List ObjectSummary}
    (hsub : ∀ object ∈ rest, object ∈ objects) {cursors : Table String LogCursor}
    {session : Session σ} (hfetching : Fetching service state session.state)
    (hlimit : session.deadline = none)
    (hshown : ∀ object ∈ rest, store.Shown session.state object) {delivered : List LogLine}
    {share : String → List String} (hshare : Interleaved root share delivered)
    (hdraining : store.Draining state cursors share) :
    ∃ lines after next, LogReader.readObjects (Session.host service tree limit) root true cursors
        rest session = (some (lines, after), next) ∧
      Fetching service state next.state ∧
      ∃ share', Interleaved root share' (delivered ++ lines) ∧
        store.Draining state after share' ∧
        (∀ object ∈ rest, IsLog root object.key → store.Exhausted state after share' object.key) ∧
        ∀ other, store.Exhausted state cursors share other →
          store.Exhausted state after share' other := by
  induction rest generalizing cursors session delivered share with
  | nil =>
      refine ⟨_, _, _, rfl, hfetching, share, ?_, hdraining, fun object hno => ?_,
        fun _ hother => hother⟩
      · rwa [List.append_nil]
      · exact absurd hno List.not_mem_nil
  | cons object rest ih =>
      have hmem := hsub object List.mem_cons_self
      rcases readObject_arrives tree limit hplace hcomplete hmem cursors hfetching hlimit with
        ⟨⟨lines, between⟩, middle, hread, hlimit'⟩
      rcases store.exhausted_of_readObject tree limit hplace htold hcomplete hmem hfetching
        (hshown object List.mem_cons_self) hshare hdraining hread with
        ⟨⟨hadvances, hfetching'⟩, share', hshare', hdraining', hself, hothers⟩
      -- An exhausted log stays so, even if it is listed once more.
      rcases ih (fun object hobject => hsub object (List.mem_cons_of_mem _ hobject)) hfetching'
        hlimit' (fun object hobject =>
          store.shown_mono hadvances (hshown object (List.mem_cons_of_mem _ hobject)))
        hshare' hdraining' with
        ⟨more, after, final, hrest, hfetching'', share'', hshare'', hdraining'', hall, hkeep⟩
      refine ⟨lines ++ more, after, final, ?_, hfetching'', share'', ?_, hdraining'', ?_,
        fun other hother => hkeep other (hothers other hother)⟩
      · exact (Action.bind_of_some hread).trans (Action.bind_of_some hrest)
      · rwa [← List.append_assoc]
      · intro listed hlisted hlog
        rcases List.mem_cons.mp hlisted with rfl | hlater
        · exact hkeep _ (hself hlog)
        · exact hall listed hlater hlog

end LogStore

end BatchRun
