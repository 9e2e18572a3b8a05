import BatchRun.Proofs.Logs.Key
import BatchRun.Proofs.Logs.Positions
import BatchRun.Proofs.Logs.Store
import BatchRun.Proofs.Store.Twins
import BatchRun.Proofs.Text.Order

/-!
# Batches in Lockstep

A batch does not depend on how a store lists.

Two stores that keep the same objects may list them in different orders and in
pages of different sizes. From either of them a listing finds every object once,
and sorting by the keys puts what was found into the same order. From there on the
two runs go in lockstep: they visit the same logs and ask for the same ones, and
as long as the same gets fail in both they deliver the same lines and come to the
same cursors.

What is asked for are the logs of the run that are due: those that were never
read, or are not listed any more as they were when they were last read. Each is
asked for under the key under which it was listed.

## Main definitions

* `Session.Alongside`, `Lockstep`: Two sessions whose services are alike, and two
  actions that come to the same end by the same calls.
* `LogReader.Ordered`: Objects in the order of the bytes of their keys.
* `LogVisit.IsDue`, `LogVisit.asked`: An object has to be read, and the objects
  that are asked for.
* `LogBatch.GoesThrough`: A batch goes through some stored objects once more.

## Theorems

* `Catalogue.Twins.lockstep_readObjects`: The same objects are visited alike.
* `LogReader.ordered_mergeSort`: What sorting makes of a listing.
* `LogReader.Visited.objects_eq`, `LogReader.Visited.isSome_answer_iff`: Which
  objects are visited, and which of them are asked for.
* `LogBatch.tells_of_listed`, `LogBatch.goesThrough_of_visited`: A batch whose
  listing succeeds.
* `LogBatch.same_of_twins`: Batches from twins are the same.
-/

namespace BatchRun

variable {σ τ ρ α β : Type}

/-- Two sessions without a limit whose services are alike. -/
structure Session.Alongside (alike : σ → τ → Prop) (session : Session σ) (session' : Session τ) :
    Prop where
  deadline : session.deadline = none
  deadline' : session'.deadline = none
  states : alike session.state session'.state

/-- Two actions come to the same end by the same calls. -/
def Lockstep (alike : σ → τ → Prop) (action : Action σ α) (action' : Action τ α) : Prop :=
  ∀ session session', Session.Alongside alike session session' →
    ∃ a next next' made, action session = (some a, next) ∧ action' session' = (some a, next') ∧
      next.Alongside alike next' ∧
      next.calls = session.calls ++ made ∧ next'.calls = session'.calls ++ made

theorem lockstep_pure {alike : σ → τ → Prop} (a : α) : Lockstep alike (pure a) (pure a) :=
  fun session session' h => ⟨a, session, session', [], rfl, rfl, h,
    (List.append_nil _).symm, (List.append_nil _).symm⟩

theorem lockstep_bind {alike : σ → τ → Prop} {action : Action σ α} {action' : Action τ α}
    {next : α → Action σ β} {next' : α → Action τ β} (h : Lockstep alike action action')
    (hnext : ∀ a, Lockstep alike (next a) (next' a)) :
    Lockstep alike (action >>= next) (action' >>= next') := by
  intro session session' halong
  rcases h session session' halong with
    ⟨a, middle, middle', front, ha, ha', hmiddle, hcalls, hcalls'⟩
  rcases hnext a middle middle' hmiddle with
    ⟨b, final, final', back, hb, hb', hfinal, hmore, hmore'⟩
  refine ⟨b, final, final', front ++ back, ?_, ?_, hfinal, ?_, ?_⟩
  · rw [Action.bind_of_some ha, hb]
  · rw [Action.bind_of_some ha', hb']
  · rw [hmore, hcalls, List.append_assoc]
  · rw [hmore', hcalls', List.append_assoc]

namespace Catalogue.Twins

variable {service : Service σ} {other : Service τ} {first : Catalogue service}
  {second : Catalogue other} {alike : σ → τ → Prop} (twins : first.Twins second alike)

include twins

variable (tree : FileTree) (limit limit' : Nat) {root : ObjectUri}

theorem lockstep_fetch (flush : Bool) (cursors : Table String LogCursor) (object : ObjectSummary)
    (source : LogSource) :
    Lockstep alike
      (LogReader.fetch (Session.host service tree limit) root flush cursors object source)
      (LogReader.fetch (Session.host other tree limit') root flush cursors object source) := by
  intro session session' halong
  rcases twins.got halong.states (root.withKey object.key) with
    ⟨⟨hdelay, hdelay'⟩, hbody, halike⟩
  rcases Session.answered_of_delay halong.deadline hdelay with
    ⟨middle, hasked, hlimit, hcalls, hstate⟩
  rcases Session.answered_of_delay halong.deadline' hdelay' with
    ⟨middle', hasked', hlimit', hcalls', hstate'⟩
  have hcall : (Session.host service tree limit).call (.get (root.withKey object.key)) session =
    _ := hasked
  have hcall' : (Session.host other tree limit').call (.get (root.withKey object.key)) session' =
    _ := hasked'
  have hmiddle : middle.Alongside alike middle' := by
    refine ⟨hlimit, hlimit', ?_⟩
    rw [hstate, hstate']
    exact halike
  unfold LogReader.fetch
  rw [Action.bind_of_some hcall, Action.bind_of_some hcall']
  cases hanswer : (service.reply (.get (root.withKey object.key)) session.state).answer with
  | error error =>
      cases hanswer' : (other.reply (.get (root.withKey object.key)) session'.state).answer with
      | error error' => exact ⟨_, middle, middle', _, rfl, rfl, hmiddle, hcalls, hcalls'⟩
      | ok body =>
          rw [(hbody body).mpr hanswer'] at hanswer
          exact nomatch hanswer
  | ok body =>
      rw [(hbody body).mp hanswer]
      simp only
      cases LogCursor.decode? object.key body with
      | none => exact ⟨_, middle, middle', _, rfl, rfl, hmiddle, hcalls, hcalls'⟩
      | some text => exact ⟨_, middle, middle', _, rfl, rfl, hmiddle, hcalls, hcalls'⟩

theorem lockstep_readObject (flush : Bool) (cursors : Table String LogCursor)
    (object : ObjectSummary) :
    Lockstep alike
      (LogReader.readObject (Session.host service tree limit) root flush cursors object)
      (LogReader.readObject (Session.host other tree limit') root flush cursors object) := by
  unfold LogReader.readObject
  cases LogSource.ofKey? root.listing object.key with
  | none => exact lockstep_pure _
  | some source =>
      have hfetch : Lockstep alike
          (LogReader.fetch (Session.host service tree limit) root flush cursors object source) _ :=
        twins.lockstep_fetch tree limit limit' flush cursors object source
      simp only
      cases cursors.get? object.key with
      | none => exact hfetch
      | some cursor =>
          simp only
          by_cases hcurrent : cursor.isCurrent object = true
          · rw [if_pos hcurrent, if_pos hcurrent]
            cases flush with
            | false => exact lockstep_pure _
            | true => exact lockstep_pure _
          · rw [if_neg hcurrent, if_neg hcurrent]
            exact hfetch

/-- The same objects are visited alike. -/
theorem lockstep_readObjects (flush : Bool) (cursors : Table String LogCursor)
    (objects : List ObjectSummary) :
    Lockstep alike
      (LogReader.readObjects (Session.host service tree limit) root flush cursors objects)
      (LogReader.readObjects (Session.host other tree limit') root flush cursors objects) := by
  induction objects generalizing cursors with
  | nil => exact lockstep_pure _
  | cons object rest ih =>
      refine lockstep_bind (twins.lockstep_readObject tree limit limit' flush cursors object)
        fun front => ?_
      exact lockstep_bind (ih front.2) fun back => lockstep_pure _

end Catalogue.Twins

namespace LogReader

/-- Objects in strict order of their keys. -/
def Ordered (objects : List ObjectSummary) : Prop :=
  objects.Pairwise fun a b => Utf8.encode a.key < Utf8.encode b.key

/-- Sorting puts objects with different keys into the order of the bytes of their
    keys. -/
theorem ordered_mergeSort {objects : List ObjectSummary} (h : (objects.map (·.key)).Nodup) :
    Ordered (objects.mergeSort keyLe) := by
  have hsorted : (objects.mergeSort keyLe).Pairwise fun a b => keyLe a b = true := by
    refine List.pairwise_mergeSort (fun a b c hab hbc => ?_) (fun a b => ?_) _
    · rw [keyLe, Bool.not_eq_true', decide_eq_false_iff_not, String.not_lt] at hab hbc ⊢
      exact String.le_trans hab hbc
    · simp only [keyLe, Bool.or_eq_true, Bool.not_eq_true', decide_eq_false_iff_not, String.not_lt]
      exact String.le_total _ _
  have hkeys := ((List.mergeSort_perm objects keyLe).map (·.key)).nodup_iff.mpr h
  refine (hsorted.and (List.pairwise_map.mp hkeys)).imp fun {a b} hab => ?_
  rw [keyLe, Bool.not_eq_true', decide_eq_false_iff_not, String.not_lt] at hab
  rw [Utf8.encode_lt_iff]
  by_cases hlt : a.key < b.key
  · exact hlt
  · exact absurd (String.le_antisymm hab.1 (String.not_lt.mp hlt)) hab.2

theorem Ordered.eq_of_perm {front back : List ObjectSummary} (h : Ordered front)
    (h' : Ordered back) (hperm : front.Perm back) : front = back :=
  List.Perm.eq_of_pairwise (fun _ _ _ _ hab hba => absurd hba (List.lt_asymm hab)) h h' hperm

theorem Ordered.nodup {objects : List ObjectSummary} (h : Ordered objects) :
    (objects.map (·.key)).Nodup := by
  rw [List.Nodup, List.pairwise_map]
  refine h.imp fun {a b} hab heq => ?_
  rw [heq] at hab
  exact List.lt_irrefl _ hab

/-- What is visited are the logs among some objects, in their order. -/
theorem Visited.objects_eq {root : ObjectUri} {flush : Bool}
    {cursors after : Table String LogCursor}
    {objects : List ObjectSummary} {visits : List LogVisit}
    (h : Visited root flush cursors objects visits after) :
    visits.map (·.object) =
      objects.filter fun object => (LogSource.ofKey? root.listing object.key).isSome := by
  induction h with
  | done => rfl
  | passed h _ ih => rw [List.filter_cons_of_neg (by rw [h]; exact Bool.false_ne_true), ih]
  | visit h hvisit _ ih =>
      rw [List.filter_cons_of_pos (by rw [h]; rfl), List.map_cons, ih, hvisit.takes.object_eq]

/-- Of objects with different keys, those are asked for that are not as they were
    before. -/
theorem Visited.isSome_answer_iff {root : ObjectUri} {flush : Bool}
    {cursors after : Table String LogCursor} {objects : List ObjectSummary}
    {visits : List LogVisit} (h : Visited root flush cursors objects visits after)
    (hkeys : (objects.map (·.key)).Nodup) {visit : LogVisit} (hmem : visit ∈ visits) :
    visit.answer.isSome = true ↔
      ∀ c, cursors.get? visit.object.key = some c → c.isCurrent visit.object = false := by
  induction h with
  | done => exact absurd hmem List.not_mem_nil
  | passed _ _ ih => exact ih (List.nodup_cons.mp hkeys).2 hmem
  | @visit cursors between after object source rest first visits _ hvisit hrest ih =>
      rw [List.map_cons, List.nodup_cons] at hkeys
      rcases List.mem_cons.mp hmem with rfl | hlater
      · rw [hvisit.takes.object_eq]
        exact hvisit.takes.isSome_answer_iff
      · -- The visit before was to another object, and has left this one's cursor as it was.
        have hobject : visit.object ∈ rest := by
          have hin := List.mem_map_of_mem (f := (·.object)) hlater
          rw [hrest.objects_eq] at hin
          exact List.mem_of_mem_filter hin
        rw [ih hkeys.2 hlater, hvisit.others visit.object.key fun heq =>
          hkeys.1 (heq ▸ List.mem_map_of_mem hobject)]

end LogReader

namespace LogVisit

/-- An object was never read, or is not listed any more as it was when it was last
    read. -/
def IsDue (visits : List LogVisit) (object : ObjectSummary) : Prop :=
  ∀ last, lastRead (toKey object.key visits) = some last →
    (last.size, last.etag) ≠ (object.size, object.etag)

/-- The objects that some visits have asked for. -/
def asked (visits : List LogVisit) : List ObjectSummary :=
  (visits.filter (·.answer.isSome)).map (·.object)

/-- What is said during some visits are gets for what they ask for. -/
theorem calls_talk (root : ObjectUri) (visits : List LogVisit) :
    (visits.flatMap (talk root)).map (·.call) =
      (asked visits).map fun object => .get (root.withKey object.key) := by
  induction visits with
  | nil => rfl
  | cons visit rest ih =>
      rw [List.flatMap_cons, List.map_append, ih]
      cases hanswer : visit.answer with
      | none => simp only [talk, hanswer, asked, Option.map_none, Option.toList_none, List.map_nil,
          List.nil_append, List.filter_cons, Option.isSome_none, Bool.false_eq_true, if_false]
      | some answer => simp only [talk, hanswer, asked, Option.map_some, Option.toList_some,
          List.map_cons, List.map_nil, List.singleton_append, List.filter_cons, Option.isSome_some,
          if_true]

theorem isDue_iff {visits : List LogVisit} {object : ObjectSummary} {cursor : Option LogCursor}
    (h : LogCursor.Follows (toKey object.key visits) cursor) :
    IsDue visits object ↔ ∀ c, cursor = some c → c.isCurrent object = false := by
  have hrecorded := h.recorded
  unfold IsDue
  constructor
  · intro hdue c hc
    rw [hc, Option.map_some, eq_comm, Option.map_eq_some_iff] at hrecorded
    rcases hrecorded with ⟨last, hlast, hsame⟩
    have hother := hdue last hlast
    rw [hsame, ne_eq, Prod.mk.injEq] at hother
    rw [LogCursor.isCurrent, Bool.eq_false_iff, ne_eq, Bool.and_eq_true, beq_iff_eq, beq_iff_eq]
    exact hother
  · intro hnew last hlast
    rw [hlast, Option.map_some, Option.map_eq_some_iff] at hrecorded
    rcases hrecorded with ⟨c, hc, hsame⟩
    have hother := hnew c hc
    rw [LogCursor.isCurrent, Bool.eq_false_iff, ne_eq, Bool.and_eq_true, beq_iff_eq, beq_iff_eq,
      ← Prod.mk.injEq, hsame] at hother
    exact hother

end LogVisit

namespace LogBatch

variable {service : Service σ} {other : Service τ} {past : Service ρ} {first : Catalogue service}
  {second : Catalogue other} {alike : σ → τ → Prop}

/-- The listings of twins are the same when they are sorted. -/
theorem sorted_of_twins (twins : first.Twins second alike) {state : σ} {state' : τ}
    (h : alike state state') (root : ObjectUri) :
    LogReader.Ordered ((first.ahead state root none).mergeSort LogReader.keyLe) ∧
      (second.ahead state' root none).mergeSort LogReader.keyLe =
        (first.ahead state root none).mergeSort LogReader.keyLe := by
  rcases twins.opens h with ⟨hopen, hopen'⟩
  have hordered := LogReader.ordered_mergeSort (first.nodup_keys hopen root)
  have hordered' := LogReader.ordered_mergeSort (second.nodup_keys hopen' root)
  refine ⟨hordered, hordered'.eq_of_perm hordered ?_⟩
  have hkept := ((twins.same h).filter fun object => root.Covers object).map MemoryStore.summary
  have hfound := ((second.whole hopen' root).trans hkept.symm).trans (first.whole hopen root).symm
  exact (List.mergeSort_perm _ _).trans (hfound.trans (List.mergeSort_perm _ _).symm)

/-- A batch whose listing succeeds reads what was listed. -/
theorem read_of_listed {tree : FileTree} {rounds : Nat} {root : ObjectUri} {flush : Bool}
    {reader : LogReader} (hroot : reader.root = some root) {session middle final : Session σ}
    {objects : List ObjectSummary} {lines : List LogLine} {cursors : Table String LogCursor}
    (hlist : LogReader.listAll (Session.host service tree rounds) root rounds none [] session =
      (some (.ok objects), middle))
    (hread : LogReader.readObjects (Session.host service tree rounds) root flush reader.cursors
      (objects.mergeSort LogReader.keyLe) middle = (some (lines, cursors), final)) :
    LogReader.read (Session.host service tree rounds) flush reader session =
      (some (lines, { reader with cursors }), final) := by
  unfold LogReader.read
  simp only [hroot]
  exact (Action.bind_of_some hlist).trans (Action.bind_of_some hread)

/-- A batch whose listing succeeds is told by the visits to what was listed. -/
theorem tells_of_listed {tree : FileTree} {rounds : Nat} {root : ObjectUri} {flush : Bool}
    {reader : LogReader} (hroot : reader.root = some root) {session middle final : Session σ}
    {objects : List ObjectSummary} {lines : List LogLine} {cursors : Table String LogCursor}
    (hlist : LogReader.listAll (Session.host service tree rounds) root rounds none [] session =
      (some (.ok objects), middle))
    (hread : LogReader.readObjects (Session.host service tree rounds) root flush reader.cursors
      (objects.mergeSort LogReader.keyLe) middle = (some (lines, cursors), final)) :
    ∃ visits, Tells service root
        ⟨flush, reader, session, lines, { reader with cursors }, final⟩ visits ∧
      LogReader.Visited root flush reader.cursors (objects.mergeSort LogReader.keyLe) visits
        cursors ∧
      final.calls = middle.calls ++
        (LogVisit.asked visits).map fun object => .get (root.withKey object.key) := by
  have hlisting : Action.Says service
      (LogReader.listAll (Session.host service tree rounds) root rounds none []) _ :=
    LogReader.says_listAll tree rounds rounds none []
  have hvisiting : Action.Says service (LogReader.readObjects (Session.host service tree rounds)
      root flush reader.cursors (objects.mergeSort LogReader.keyLe)) _ :=
    LogReader.says_readObjects tree rounds flush reader.cursors _
  rcases hlisting session with ⟨front, hfront, hstart, hlisted⟩
  rcases hvisiting middle with ⟨back, hback, hrest, hvisited⟩
  rw [hlist] at hfront hstart hlisted
  rw [hread] at hback hrest hvisited
  rcases hvisited _ rfl with ⟨visits, rfl, hlines, hvisited⟩
  rcases hlisted _ rfl with ⟨found, hfound, heq⟩
  cases found with
  | error error => exact nomatch heq
  | ok found =>
      simp only [Except.map, List.nil_append, Except.ok.injEq] at heq
      rw [← heq] at hfound
      refine ⟨visits, ?_, hvisited, ?_⟩
      · refine tells_of_batched hlines ?_ (hstart.append hrest) (hroot ▸ .listed hfound hvisited)
        rw [hback, hfront, List.map_append, List.append_assoc]
      · rw [hback, LogVisit.calls_talk]

/-- A batch goes through some stored objects once more, behind some earlier
    visits. -/
structure GoesThrough (root : ObjectUri) (stored : List StoredObject) (told visits : List LogVisit)
    (cursors : Table String LogCursor) : Prop where
  /-- The visits are in the order of the bytes of the keys. -/
  ordered : LogReader.Ordered (visits.map (·.object))
  /-- The positions go on behind those that were delivered earlier. -/
  follows : ∀ key, LogCursor.Follows (LogVisit.toKey key (told ++ visits)) (cursors.get? key)
  /-- What is asked for are the logs that are due. -/
  asked_iff : ∀ object, object ∈ LogVisit.asked visits ↔
    (∃ other ∈ stored, root.Covers other ∧ MemoryStore.summary other = object) ∧
      IsLog root object.key ∧ LogVisit.IsDue told object

theorem goesThrough_of_visited {root : ObjectUri} {stored : List StoredObject}
    {told visits : List LogVisit} {flush : Bool} {cursors after : Table String LogCursor}
    (hfollows : ∀ key, LogCursor.Follows (LogVisit.toKey key told) (cursors.get? key))
    {objects : List ObjectSummary} (hordered : LogReader.Ordered objects)
    (hstored : ∀ object, object ∈ objects ↔
      ∃ other ∈ stored, root.Covers other ∧ MemoryStore.summary other = object)
    (hvisited : LogReader.Visited root flush cursors objects visits after) :
    GoesThrough root stored told visits after where
  ordered := by
    rw [hvisited.objects_eq]
    exact hordered.filter _
  follows := LogCursor.follows_of_visited hvisited hfollows
  asked_iff object := by
    have hlog : object ∈ visits.map (·.object) ↔ object ∈ objects ∧ IsLog root object.key := by
      rw [hvisited.objects_eq, List.mem_filter, IsLog, Option.isSome_iff_exists]
    rw [← hstored, ← and_assoc, ← hlog, LogVisit.isDue_iff (hfollows object.key), LogVisit.asked]
    simp only [List.mem_map, List.mem_filter]
    constructor
    · rintro ⟨visit, ⟨hmem, hasked⟩, rfl⟩
      exact ⟨⟨visit, hmem, rfl⟩, (hvisited.isSome_answer_iff hordered.nodup hmem).mp hasked⟩
    · rintro ⟨⟨visit, hmem, rfl⟩, hnew⟩
      exact ⟨visit, ⟨hmem, (hvisited.isSome_answer_iff hordered.nodup hmem).mpr hnew⟩, rfl⟩

/-- Batches from twins are the same, whatever batches were taken before, and from
    whatever service. They deliver the same lines and leave the same cursors, and
    after their listings they make the same gets: one for each log below the place
    of the run that is due, under its own key. -/
theorem same_of_twins (twins : first.Twins second alike) (tree : FileTree)
    {earlier rounds rounds' : Nat} {logs : ObjectUri} (hlogs : logs.Normal) {handle : RunHandle}
    {batches : List (LogBatch ρ)} {reader : LogReader}
    (hcourse : Course past tree earlier (LogReader.make (some logs) handle) batches reader)
    {session : Session σ} {session' : Session τ} (halong : session.Alongside alike session')
    (hrounds : (first.objects session.state).length < rounds)
    (hrounds' : (first.objects session.state).length < rounds') (flush : Bool) :
    ∃ (told : List (List LogVisit)) (visits : List LogVisit) (lines : List LogLine)
      (after : LogReader) (final : Session σ) (final' : Session τ)
      (tokens tokens' : List (Option String)),
      LogReader.read (Session.host service tree rounds) flush reader session =
        (some (lines, after), final) ∧
      LogReader.read (Session.host other tree rounds') flush reader session' =
        (some (lines, after), final') ∧
      (final.calls = session.calls ++ tokens.map (.list (LogReader.runRoot logs handle)) ++
        (LogVisit.asked visits).map fun object =>
          .get { LogReader.runRoot logs handle with key := object.key }) ∧
      (final'.calls = session'.calls ++ tokens'.map (.list (LogReader.runRoot logs handle)) ++
        (LogVisit.asked visits).map fun object =>
          .get { LogReader.runRoot logs handle with key := object.key }) ∧
      List.Forall₂ (Tells past (LogReader.runRoot logs handle)) batches told ∧
      Tells service (LogReader.runRoot logs handle) ⟨flush, reader, session, lines, after, final⟩
        visits ∧
      GoesThrough (LogReader.runRoot logs handle) (first.objects session.state) told.flatten visits
        after.cursors := by
  rcases told_of_course hcourse with ⟨hroot, told, htold, hfollows⟩
  rcases twins.opens halong.states with ⟨hopen, hopen'⟩
  generalize hplace : LogReader.runRoot logs handle = root at hroot htold
  have hfew := first.length_ahead_le hopen root
  have hfew' := second.length_ahead_le hopen' root
  rw [← (twins.same halong.states).length_eq] at hfew'
  rcases first.listAll_arrives tree rounds [] hopen halong.deadline
    (Nat.lt_of_le_of_lt hfew hrounds) with ⟨tokens, middle, hlist, hlimit, hcalls, hstate⟩
  rcases second.listAll_arrives tree rounds' [] hopen' halong.deadline'
    (Nat.lt_of_le_of_lt hfew' hrounds') with ⟨tokens', middle', hlist', hlimit', hcalls', hstate'⟩
  rcases sorted_of_twins twins halong.states root with ⟨hordered, hsorted⟩
  have hmiddle : middle.Alongside alike middle' := by
    refine ⟨hlimit, hlimit', ?_⟩
    rw [hstate, hstate']
    exact twins.after_lists root root tokens tokens' halong.states
  have hlockstep : Lockstep alike
      (LogReader.readObjects (Session.host service tree rounds) root flush
      reader.cursors ((first.ahead session.state root none).mergeSort LogReader.keyLe)) _ :=
    twins.lockstep_readObjects tree rounds rounds' flush reader.cursors _
  rcases hlockstep middle middle' hmiddle with
    ⟨⟨lines, cursors⟩, final, final', made, hread, hread', _, hmade, hmade'⟩
  rw [← hsorted] at hread'
  rcases tells_of_listed hroot hlist hread with ⟨visits, htells, hvisited, hgets⟩
  -- What is asked for are logs, so every get is for the key that was listed.
  have hmembers : ∀ object, object ∈ (first.ahead session.state root none).mergeSort
      LogReader.keyLe ↔ ∃ other ∈ first.objects session.state, root.Covers other ∧
        MemoryStore.summary other = object := fun object => by
    rw [List.mem_mergeSort, (first.whole hopen root).mem_iff]
    simp only [List.mem_map, List.mem_filter, decide_eq_true_eq, and_assoc]
  have hthrough := goesThrough_of_visited hfollows hordered hmembers hvisited
  have hkeys : ((LogVisit.asked visits).map fun object => Call.get (root.withKey object.key)) =
      (LogVisit.asked visits).map fun object => .get { root with key := object.key } := by
    refine List.map_congr_left fun object hobject => ?_
    rcases ((hthrough.asked_iff object).mp hobject).2.1 with ⟨source, hsource⟩
    rw [← hplace] at hsource ⊢
    rw [LogReader.withKey_runRoot hlogs hsource]
  rw [hgets, List.append_cancel_left_eq] at hmade
  rw [hkeys] at hgets
  refine ⟨told, visits, lines, { reader with cursors }, final, final', tokens, tokens', ?_, ?_, ?_,
    ?_, htold, htells, hthrough⟩
  · exact read_of_listed hroot hlist hread
  · exact read_of_listed hroot hlist' hread'
  · rw [hgets, hcalls]
  · rw [hmade', hcalls', ← hmade, hkeys]

/-- The key of another log of the same run. -/
def otherLog : String := "logs/applications/app/jobs/run/SPARK_DRIVER/stderr"

/-- A session with a store that has both logs. -/
def shelves (pageSize : Nat) (descending : Bool) : Session Rehearsal :=
  Session.start (Rehearsal.idle
    ⟨pageSize, descending,
      [⟨"bucket", onlyLog, [97, 10, 98, 10], 4, some "v2"⟩,
        ⟨"bucket", otherLog, [99, 10], 2, some "v1"⟩], 0, []⟩) none

/-- A new reader gets both logs, whether the store lists them one by one or both at
    once, and whichever of them comes first. -/
theorem same_of_twins_paged : ∃ lines after final final',
    LogReader.read (Session.host Rehearsal.service FileTree.empty 3) false
      (LogReader.make (some (.make "s3" "bucket" "logs")) ⟨"app", "run"⟩) (shelves 1 false) =
      (some (lines, after), final) ∧
    LogReader.read (Session.host Rehearsal.service FileTree.empty 4) false
      (LogReader.make (some (.make "s3" "bucket" "logs")) ⟨"app", "run"⟩) (shelves 2 true) =
      (some (lines, after), final') ∧
    ∀ key, key = onlyLog ∨ key = otherLog →
      .get ⟨"s3", "bucket", key⟩ ∈ final.calls ∧ .get ⟨"s3", "bucket", key⟩ ∈ final'.calls := by
  have halike : Rehearsal.Alike (shelves 1 false).state (shelves 2 true).state :=
    { opens := ⟨by decide, by decide +kernel, by decide⟩
      opens' := ⟨by decide, by decide +kernel, by decide⟩
      objects := .refl _
      faults := rfl }
  have hcourse : Course Rehearsal.service FileTree.empty 0
      (LogReader.make (some (.make "s3" "bucket" "logs")) ⟨"app", "run"⟩) [] _ := .start
  have hfew : (Rehearsal.catalogue.objects (shelves 1 false).state).length < 3 := by decide
  rcases same_of_twins Rehearsal.twins_alike FileTree.empty (ObjectUri.normal_make _ _ _) hcourse
    ⟨rfl, rfl, halike⟩ hfew (Nat.lt_succ_of_lt hfew) false with
    ⟨told, visits, lines, after, final, final', _, _, hread, hread', hcalls, hcalls', htold, _,
      hthrough⟩
  refine ⟨lines, after, final, final', hread, hread', fun key hkey => ?_⟩
  -- Nothing was read before, so every log is due.
  have hnone : told = [] := List.forall₂_nil_left_iff.mp htold
  have hasked : ∃ object ∈ LogVisit.asked visits, object.key = key := by
    rw [hnone] at hthrough
    rcases hkey with rfl | rfl
    · exact ⟨⟨onlyLog, 4, some "v2"⟩, (hthrough.asked_iff _).mpr
        ⟨⟨_, .head _, by decide +kernel, rfl⟩, ⟨⟨"SPARK_DRIVER", "stdout"⟩, by decide +kernel⟩,
          fun _ hno => nomatch hno⟩, rfl⟩
    · exact ⟨⟨otherLog, 2, some "v1"⟩, (hthrough.asked_iff _).mpr
        ⟨⟨_, .tail _ (.head _), by decide +kernel, rfl⟩,
          ⟨⟨"SPARK_DRIVER", "stderr"⟩, by decide +kernel⟩, fun _ hno => nomatch hno⟩, rfl⟩
  rcases hasked with ⟨object, hobject, rfl⟩
  have hplace : LogReader.runRoot (.make "s3" "bucket" "logs") ⟨"app", "run"⟩ =
      ⟨"s3", "bucket", "logs/applications/app/jobs/run"⟩ := by decide +kernel
  rw [hplace] at hcalls hcalls'
  rw [hcalls, hcalls']
  exact ⟨List.mem_append_right _ (List.mem_map_of_mem hobject),
    List.mem_append_right _ (List.mem_map_of_mem hobject)⟩

end LogBatch

end BatchRun
