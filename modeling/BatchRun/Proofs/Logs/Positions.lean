import BatchRun.Proofs.Logs.Cursor
import BatchRun.Proofs.Logs.Visits
import BatchRun.Proofs.Store.Storeroom
import Mathlib.Data.List.Perm.Subperm

/-!
# Positions of Delivered Lines

No position in a log is delivered twice.

A line that is delivered has a position in the body that was read last. Whatever
becomes of the objects between two batches, and whatever fails in them, the
positions that are delivered of an object go up from one line to the next: a
shorter body delivers nothing until it has more lines than were delivered, and a
line that was held back counts as soon as it is delivered.

The cursor of an object follows its visits. Its count is behind all positions
that were delivered, its size and its tag are those with which the object was
listed when it was last read, and it holds something back only if it counts
exactly the finished lines of the last body.

## Main definitions

* `LogVisit.toKey`, `LogVisit.lastText`, `LogVisit.lastRead`: The visits to one
  object, the text that was read last, and how the object was listed then.
* `LogCursor.Follows`: A cursor follows the visits to its object.
* `LogBatch`, `LogBatch.Course`: A batch, and batches one after the other.
* `LogBatch.Tells`: What happens in a batch.

## Theorems

* `LogCursor.advance_positions`: Where the lines of a reading stand.
* `LogCursor.follows_of_takes`, `LogCursor.follows_of_visited`: A cursor follows
  one visit, and all of them.
* `LogBatch.tells_of_batched`, `LogBatch.told_of_course`: Every batch is told by
  its visits.
* `LogBatch.positions_increase`: The positions that are delivered go up.
-/

namespace BatchRun

namespace LogVisit

/-- The visits to the object with a key. -/
def toKey (key : String) (visits : List LogVisit) : List LogVisit :=
  visits.filter fun visit => visit.object.key = key

/-- The text that was read last. -/
def lastText (visits : List LogVisit) : Option (List Char) :=
  (visits.filterMap text?).getLast?

/-- How an object was listed when it was last read. -/
def lastRead (visits : List LogVisit) : Option ObjectSummary :=
  (visits.filterMap fun visit => visit.text?.map fun _ => visit.object).getLast?

theorem lastText_concat (visits : List LogVisit) (visit : LogVisit) :
    lastText (visits ++ [visit]) = visit.text?.or (lastText visits) := by
  unfold lastText
  cases htext : visit.text? <;> simp [htext]

theorem lastRead_concat (visits : List LogVisit) (visit : LogVisit) :
    lastRead (visits ++ [visit]) =
      (visit.text?.map fun _ => visit.object).or (lastRead visits) := by
  unfold lastRead
  cases htext : visit.text? <;> simp [htext]

end LogVisit

namespace LogCursor

open LogVisit

theorem heldBack_eq_some_iff {emitted : Nat} {text : List Char} {tail : String} :
    heldBack emitted text = some tail ↔
      unfinished text = tail ∧ tail ≠ "" ∧ emitted = (finished text).length := by
  unfold heldBack
  constructor
  · intro h
    split at h
    · exact nomatch h
    · next hopen =>
      simp only [Bool.or_eq_true, String.isEmpty_iff, bne_iff_ne, not_or, Decidable.not_not]
        at hopen
      rw [Option.some.injEq] at h
      exact ⟨h, h ▸ hopen.1, hopen.2⟩
  · rintro ⟨rfl, hne, rfl⟩
    simp [hne]

/-- Where the lines of a reading stand. They are the next lines of the text, and
    the count is moved behind them. The cursor is that of the object as it was
    listed, and holds back what is left. -/
theorem advance_positions (cursor : LogCursor) (object : ObjectSummary) (text : List Char)
    (flush : Bool) :
    (cursor.advance object text flush).1 <+: (messages text).drop cursor.emitted ∧
      cursor.emitted + (cursor.advance object text flush).1.length ≤
        (cursor.advance object text flush).2.emitted ∧
      ((cursor.advance object text flush).2.size, (cursor.advance object text flush).2.etag) =
        (object.size, object.etag) ∧
      ∀ tail, (cursor.advance object text flush).2.tail = some tail →
        heldBack (cursor.advance object text flush).2.emitted text = some tail := by
  have hmessages : (messages text).drop cursor.emitted = (finished text).drop cursor.emitted ++
      (heldBack (finished text).length text).toList.drop
        (cursor.emitted - (finished text).length) := by
    rw [messages_eq, List.drop_append]
  have hfresh : ((finished text).drop cursor.emitted).length =
      (finished text).length - cursor.emitted := List.length_drop
  unfold advance
  by_cases hnone : (unfinished text).isEmpty = true ∨
      max cursor.emitted (finished text).length ≠ (finished text).length
  · -- Nothing is left behind the finished lines, or what is left was counted before.
    have hrest : ((unfinished text).isEmpty ||
        max cursor.emitted (finished text).length != (finished text).length) = true := by
      simpa [bne_iff_ne] using hnone
    simp only [hrest, if_true]
    exact ⟨hmessages ▸ List.prefix_append _ _, by omega, trivial, fun tail hno => nomatch hno⟩
  · have hrest : ((unfinished text).isEmpty ||
        max cursor.emitted (finished text).length != (finished text).length) = false := by
      simpa [bne_iff_ne] using hnone
    rw [not_or, Decidable.not_not, String.isEmpty_iff] at hnone
    have hheld : heldBack (finished text).length text = some (unfinished text) :=
      heldBack_eq_some_iff.mpr ⟨rfl, hnone.1, rfl⟩
    simp only [hrest, Bool.false_eq_true, if_false]
    cases flush with
    | false =>
        refine ⟨hmessages ▸ List.prefix_append _ _,
          by simp only [Bool.false_eq_true, if_false]; omega, rfl, fun tail htail => ?_⟩
        simp only [Bool.false_eq_true, if_false] at htail ⊢
        rw [hnone.2, hheld]
        exact htail
    | true =>
        refine ⟨?_, ?_, rfl, fun tail hno => nomatch hno⟩
        · -- All lines were counted at most, so the last one is the next one.
          have hbehind : cursor.emitted - (finished text).length = 0 := by omega
          rw [hmessages, hbehind, hheld]
          exact List.prefix_rfl
        · simp only [if_true, List.length_append, List.length_singleton]
          omega

/-- A cursor follows the visits to its object. What is not there was never
    read. -/
structure Follows (visits : List LogVisit) (cursor : Option LogCursor) : Prop where
  /-- The positions that were delivered go up. -/
  increasing : (visits.flatMap LogVisit.positions).Pairwise (· < ·)
  /-- The count is behind all of them. -/
  behind : ∀ position ∈ visits.flatMap LogVisit.positions,
    position < (cursor.getD start).emitted
  /-- Every line is the one at its position in the text that was read last. -/
  placed : ∀ front visit back, visits = front ++ visit :: back →
    ∀ (i : Nat) message, visit.messages[i]? = some message →
      ∃ text, lastText (front ++ [visit]) = some text ∧
        (messages text)[visit.first + i]? = some message
  /-- What is held back is the unfinished line of the text that was read last, and
      all finished ones are counted. -/
  held : ∀ c tail, cursor = some c → c.tail = some tail →
    ∃ text, lastText visits = some text ∧ c.emitted = (finished text).length ∧
      unfinished text = tail ∧ tail ≠ ""
  /-- The cursor has the size and the tag of the last reading. -/
  recorded : cursor.map (fun c => (c.size, c.etag)) =
    (lastRead visits).map fun object => (object.size, object.etag)

theorem follows_nil : Follows [] none where
  increasing := List.Pairwise.nil
  behind _ hno := absurd hno List.not_mem_nil
  placed front visit back hnil := by simp at hnil
  held _ _ hno := nomatch hno
  recorded := rfl

/-- One more visit delivers lines behind those before, if its first position is
    the count and the new count is behind its last one. -/
theorem follows_concat {visits : List LogVisit} {cursor after : Option LogCursor}
    (h : Follows visits cursor) {visit : LogVisit}
    (hfirst : visit.first = (cursor.getD start).emitted)
    (hcount : visit.first + visit.messages.length ≤ (after.getD start).emitted)
    (hplaced : ∀ (i : Nat) message, visit.messages[i]? = some message →
      ∃ text, lastText (visits ++ [visit]) = some text ∧
        (messages text)[visit.first + i]? = some message)
    (hheld : ∀ c tail, after = some c → c.tail = some tail →
      ∃ text, lastText (visits ++ [visit]) = some text ∧ c.emitted = (finished text).length ∧
        unfinished text = tail ∧ tail ≠ "")
    (hrecorded : after.map (fun c => (c.size, c.etag)) =
      (lastRead (visits ++ [visit])).map fun object => (object.size, object.etag)) :
    Follows (visits ++ [visit]) after where
  increasing := by
    rw [List.flatMap_append, List.flatMap_singleton, List.pairwise_append]
    refine ⟨h.increasing, List.pairwise_lt_range', fun a ha b hb => ?_⟩
    have hbefore := h.behind a ha
    rw [LogVisit.positions, List.mem_range'_1] at hb
    omega
  behind position hposition := by
    rw [List.flatMap_append, List.flatMap_singleton, List.mem_append] at hposition
    rcases hposition with hold | hnew
    · have hbefore := h.behind position hold
      omega
    · rw [LogVisit.positions, List.mem_range'_1] at hnew
      omega
  placed front other back hsplit := by
    rcases List.eq_nil_or_concat back with rfl | ⟨rest, last, rfl⟩
    · -- The line is one of the last visit.
      rcases List.append_inj' hsplit rfl with ⟨rfl, hlast⟩
      rw [List.cons.injEq] at hlast
      rw [← hlast.1]
      exact hplaced
    · rw [List.concat_eq_append, ← List.cons_append, ← List.append_assoc] at hsplit
      exact h.placed front other rest (List.append_inj' hsplit rfl).1
  held := hheld
  recorded := hrecorded

/-- A visit that reads nothing and delivers nothing leaves everything as it is. -/
theorem follows_silent {visits : List LogVisit} {cursor : Option LogCursor}
    (h : Follows visits cursor) {visit : LogVisit}
    (hfirst : visit.first = (cursor.getD start).emitted)
    (hmessages : visit.messages = []) (htext : visit.text? = none) :
    Follows (visits ++ [visit]) cursor := by
  refine follows_concat h hfirst ?_ (fun i message hno => ?_) ?_ ?_
  · rw [hmessages, hfirst]
    exact Nat.le_refl _
  · rw [hmessages, List.getElem?_nil] at hno
    exact nomatch hno
  · rw [lastText_concat, htext]
    exact h.held
  · rw [lastRead_concat, htext]
    exact h.recorded

/-- A reading delivers the next lines of the text that was read. -/
theorem follows_read {visits : List LogVisit} {cursor : Option LogCursor}
    (h : Follows visits cursor) {flush : Bool} {object : ObjectSummary} {source : LogSource}
    {body : Bytes} {text : List Char} (htext : decode? object.key body = some text) :
    Follows (visits ++ [⟨object, source, some (.ok body), (cursor.getD start).emitted,
      ((cursor.getD start).advance object text flush).1⟩])
      (some ((cursor.getD start).advance object text flush).2) := by
  rcases advance_positions (cursor.getD start) object text flush with
    ⟨hpart, hcount, hobject, htail⟩
  have hread : LogVisit.text? ⟨object, source, some (.ok body), (cursor.getD start).emitted,
      ((cursor.getD start).advance object text flush).1⟩ = some text := htext
  have hlast := lastText_concat visits ⟨object, source, some (.ok body),
    (cursor.getD start).emitted, ((cursor.getD start).advance object text flush).1⟩
  rw [hread, Option.some_or] at hlast
  refine follows_concat h rfl hcount (fun i message hmessage => ⟨text, hlast, ?_⟩)
    (fun c tail hc hheld => ⟨text, hlast, ?_⟩) ?_
  · rw [← List.getElem?_drop]
    rcases hpart with ⟨rest, hrest⟩
    rw [← hrest, List.getElem?_append_left (List.getElem?_eq_some_iff.mp hmessage).1]
    exact hmessage
  · rw [Option.some.injEq] at hc
    rw [← hc] at hheld ⊢
    rcases heldBack_eq_some_iff.mp (htail tail hheld) with ⟨hopen, hne, hfinished⟩
    exact ⟨hfinished, hopen, hne⟩
  · rw [lastRead_concat, hread]
    exact congrArg some hobject

/-- What was held back is the line behind the finished ones of the text that was read
    last. -/
theorem follows_release {visits : List LogVisit} {cursor : LogCursor}
    (h : Follows visits (some cursor)) {object : ObjectSummary} {source : LogSource}
    {tail : String} (htail : cursor.tail = some tail) :
    Follows (visits ++ [⟨object, source, none, cursor.emitted, [tail]⟩])
      (some { cursor with tail := none, emitted := cursor.emitted + 1 }) := by
  rcases h.held cursor tail rfl htail with ⟨text, htext, hcount, hopen, hne⟩
  have hheld := heldBack_eq_some_iff.mpr ⟨hopen, hne, rfl⟩
  refine follows_concat h rfl (Nat.le_refl _) (fun i message hmessage => ⟨text, ?_, ?_⟩)
    (fun c other hc hno => ?_) ?_
  · rw [lastText_concat]
    exact htext
  · rw [List.getElem?_singleton] at hmessage
    split at hmessage
    · next hi =>
      rw [hcount, hi, messages_eq, hheld, Nat.add_zero,
        List.getElem?_append_right (Nat.le_refl _), Nat.sub_self]
      exact hmessage
    · exact nomatch hmessage
  · rw [Option.some.injEq] at hc
    rw [← hc] at hno
    exact nomatch hno
  · rw [lastRead_concat]
    exact h.recorded

/-- A cursor follows one more visit. -/
theorem follows_of_takes {visits : List LogVisit} {cursor after : Option LogCursor}
    (h : Follows visits cursor) {flush : Bool} {object : ObjectSummary} {source : LogSource}
    {visit : LogVisit} (htakes : visit.Takes flush object source cursor after) :
    Follows (visits ++ [visit]) after := by
  cases htakes with
  | @vain cursor answer hnew hbad =>
      have htext : LogVisit.text? ⟨object, source, some answer,
          (cursor.getD start).emitted, []⟩ = none := by
        cases answer with
        | error error => rfl
        | ok body => exact hbad body rfl
      exact follows_silent h rfl rfl htext
  | read hnew htext => exact follows_read h htext
  | idle hcurrent hflush => exact follows_silent h rfl rfl rfl
  | @released cursor hcurrent hflush =>
      cases htail : cursor.tail with
      | none =>
          have hrelease : cursor.release = ([], cursor) := by simp only [release, htail]
          rw [hrelease]
          exact follows_silent h rfl rfl rfl
      | some tail =>
          have hrelease : cursor.release =
              ([tail], { cursor with tail := none, emitted := cursor.emitted + 1 }) := by
            simp only [release, htail]
          rw [hrelease]
          exact follows_release h htail

/-- All cursors follow the visits to their objects. -/
theorem follows_of_visited {root : ObjectUri} {flush : Bool}
    {cursors after : Table String LogCursor}
    {objects : List ObjectSummary} {visits : List LogVisit}
    (h : LogReader.Visited root flush cursors objects visits after) {before : List LogVisit}
    (hbefore : ∀ key, Follows (toKey key before) (cursors.get? key)) (key : String) :
    Follows (toKey key (before ++ visits)) (after.get? key) := by
  induction h generalizing before with
  | done => rw [List.append_nil]; exact hbefore key
  | passed _ _ ih => exact ih hbefore
  | @visit cursors between after object source rest visit visits _ hvisit _ ih =>
      rw [← List.singleton_append, ← List.append_assoc]
      refine ih fun other => ?_
      have hobject := hvisit.takes.object_eq
      unfold toKey
      rw [List.filter_append]
      by_cases ho : object.key = other
      · subst ho
        simp only [List.filter_cons, hobject, decide_true, if_true, List.filter_nil]
        exact follows_of_takes (hbefore _) hvisit.takes
      · rw [hvisit.others other (Ne.symm ho)]
        simp only [List.filter_cons, hobject, ho, decide_false, Bool.false_eq_true, if_false,
          List.filter_nil, List.append_nil]
        exact hbefore other

/-- A visit does not take the count back. -/
theorem emitted_le_of_takes {flush : Bool} {object : ObjectSummary} {source : LogSource}
    {cursor after : Option LogCursor} {visit : LogVisit}
    (h : visit.Takes flush object source cursor after) :
    (cursor.getD start).emitted ≤ (after.getD start).emitted := by
  cases h with
  | vain => exact Nat.le_refl _
  | @read cursor body text _ _ =>
      exact Nat.le_trans (Nat.le_add_right _ _)
        (advance_positions (cursor.getD start) object text flush).2.1
  | idle => exact Nat.le_refl _
  | @released cursor _ _ =>
      simp only [Option.getD_some, release]
      split
      · exact Nat.le_succ _
      · exact Nat.le_refl _

/-- No visits do. -/
theorem emitted_le_of_visited {root : ObjectUri} {flush : Bool}
    {cursors after : Table String LogCursor} {objects : List ObjectSummary}
    {visits : List LogVisit} (h : LogReader.Visited root flush cursors objects visits after)
    (key : String) :
    ((cursors.get? key).getD start).emitted ≤ ((after.get? key).getD start).emitted := by
  induction h with
  | done => exact Nat.le_refl _
  | passed _ _ ih => exact ih
  | @visit cursors between after object _ _ _ _ _ hvisit _ ih =>
      refine Nat.le_trans ?_ ih
      by_cases hkey : key = object.key
      · rw [hkey]
        exact emitted_le_of_takes hvisit.takes
      · exact Nat.le_of_eq (by rw [hvisit.others key hkey])

/-- So many lines were delivered at most as the cursor counts. -/
theorem Follows.length_le {visits : List LogVisit} {cursor : Option LogCursor}
    (h : Follows visits cursor) :
    (visits.flatMap LogVisit.messages).length ≤ (cursor.getD start).emitted := by
  have hlength : (visits.flatMap LogVisit.positions).length =
      (visits.flatMap LogVisit.messages).length := by
    simp only [List.length_flatMap, LogVisit.positions, List.length_range']
  -- Positions that go up are all different, and there are only so many below the count.
  have hsub : visits.flatMap LogVisit.positions ⊆ List.range (cursor.getD start).emitted :=
    fun position hposition => List.mem_range.mpr (h.behind position hposition)
  have hle := (List.subperm_of_subset (h.increasing.imp Nat.ne_of_lt) hsub).length_le
  rwa [List.length_range, hlength] at hle

end LogCursor

/-- A batch: whether the run was over, the reader and the session before and
    after it, and the lines that were delivered. -/
structure LogBatch (σ : Type) where
  flush : Bool
  before : LogReader
  session : Session σ
  lines : List LogLine
  after : LogReader
  final : Session σ

namespace LogBatch

variable {σ : Type} {service : Service σ} {tree : FileTree} {rounds : Nat}

/-- Batches that a reader takes one after the other. Each has a session of its
    own, so anything may have happened to the objects between two of them. -/
inductive Course (service : Service σ) (tree : FileTree) (rounds : Nat) (first : LogReader) :
    List (LogBatch σ) → LogReader → Prop
  | start : Course service tree rounds first [] first
  | next {batches : List (LogBatch σ)} {reader after : LogReader} {flush : Bool}
      {session final : Session σ} {lines : List LogLine}
      (h : Course service tree rounds first batches reader)
      (hread : LogReader.read (Session.host service tree rounds) flush reader session =
        (some (lines, after), final)) :
      Course service tree rounds first
        (batches ++ [⟨flush, reader, session, lines, after, final⟩]) after

/-- What happens in a batch. -/
structure Tells (service : Service σ) (root : ObjectUri) (batch : LogBatch σ)
    (visits : List LogVisit) : Prop where
  /-- The lines are those of the visits. -/
  lines_eq : batch.lines = visits.flatMap LogVisit.lines
  /-- The visits got the answers of the service. If a page could not be listed,
      nothing was visited and no cursor was moved. -/
  said : ∃ talk, batch.final.calls = batch.session.calls ++ talk.map (·.call) ∧
    Dialogue service batch.session.state talk batch.final.state ∧
    LogReader.Batched root batch.flush batch.before talk visits batch.after ∧
    ∀ place token error, ⟨.list place token, some (.error error)⟩ ∈ talk →
      visits = [] ∧ batch.after = batch.before
  /-- No count goes back. -/
  grown : ∀ key, ((batch.before.cursors.get? key).getD .start).emitted ≤
    ((batch.after.cursors.get? key).getD .start).emitted
  /-- The cursor of an object that was not listed, or that was asked for in vain, is
      what it was. -/
  kept : ∀ key, (∀ visit ∈ visits, visit.object.key = key → visit.Failed) →
    batch.after.cursors.get? key = batch.before.cursors.get? key

theorem tells_of_batched {root : ObjectUri} {flush : Bool} {before after : LogReader}
    {session final : Session σ} {lines : List LogLine} {talk : List Exchange}
    {visits : List LogVisit} (hlines : lines = visits.flatMap LogVisit.lines)
    (hcalls : final.calls = session.calls ++ talk.map (·.call))
    (hdialogue : Dialogue service session.state talk final.state)
    (h : LogReader.Batched root flush before talk visits after) :
    Tells service root ⟨flush, before, session, lines, after, final⟩ visits := by
  have hsaid := h
  cases h with
  | unlisted hlisted =>
      exact ⟨hlines, ⟨talk, hcalls, hdialogue, hsaid, fun _ _ _ _ => ⟨rfl, rfl⟩⟩,
        fun _ => Nat.le_refl _, fun _ _ => rfl⟩
  | @listed listing objects visits cursors hlisted hvisited =>
      refine ⟨hlines, ⟨_, hcalls, hdialogue, hsaid, fun place token error hmem => ?_⟩,
        fun key => LogCursor.emitted_le_of_visited hvisited key,
        fun key hfailed => hvisited.get?_eq hfailed⟩
      -- All pages came, and a get is no page.
      rcases List.mem_append.mp hmem with hpage | hget
      · exact absurd hpage (hlisted.not_mem rfl place token error)
      · rcases List.mem_flatMap.mp hget with ⟨visit, _, hsaid⟩
        simp [LogVisit.talk, Option.map_eq_some_iff] at hsaid

/-- Every batch is told by its visits, and every cursor follows the visits to its
    object. -/
theorem told_of_course {logs : ObjectUri} {handle : RunHandle} {batches : List (LogBatch σ)}
    {reader : LogReader}
    (h : Course service tree rounds (LogReader.make (some logs) handle) batches reader) :
    reader.root = some (LogReader.runRoot logs handle) ∧
      ∃ told : List (List LogVisit),
        List.Forall₂ (Tells service (LogReader.runRoot logs handle)) batches told ∧
        ∀ key, LogCursor.Follows (LogVisit.toKey key told.flatten) (reader.cursors.get? key) := by
  induction h with
  | start => exact ⟨rfl, [], .nil, fun key => LogCursor.follows_nil⟩
  | @next batches reader after flush session final lines _ hread ih =>
      rcases ih with ⟨hroot, told, htold, hfollows⟩
      rcases LogReader.says_read tree rounds flush hroot session with
        ⟨talk, hcalls, hdialogue, hbatched⟩
      rw [hread] at hcalls hdialogue hbatched
      rcases hbatched _ rfl with ⟨visits, hlines, hbatched⟩
      refine ⟨?_, told ++ [visits], ?_, fun key => ?_⟩
      · cases hbatched <;> exact hroot
      · refine List.rel_append htold (.cons ?_ .nil)
        exact tells_of_batched hlines hcalls hdialogue hbatched
      · rw [List.flatten_append, List.flatten_singleton]
        cases hbatched with
        | unlisted _ => rw [List.append_nil]; exact hfollows key
        | listed _ hvisited => exact LogCursor.follows_of_visited hvisited hfollows key

/-- The positions that are delivered of an object go up, whatever becomes of the
    objects between two batches and whatever fails in them. Every batch is told by
    its visits, and the cursor of every object follows the visits to it: no
    position is delivered twice, the count is behind all of them and never goes
    back, and something is held back only while the count is that of the finished
    lines of the body that was read last. -/
theorem positions_increase {logs : ObjectUri} {handle : RunHandle} {batches : List (LogBatch σ)}
    {reader : LogReader}
    (h : Course service tree rounds (LogReader.make (some logs) handle) batches reader) :
    ∃ told : List (List LogVisit),
      List.Forall₂ (Tells service (LogReader.runRoot logs handle)) batches told ∧
      ∀ key,
        LogCursor.Follows (LogVisit.toKey key told.flatten) (reader.cursors.get? key) ∧
        ((LogVisit.toKey key told.flatten).flatMap LogVisit.messages).length ≤
          ((reader.cursors.get? key).getD .start).emitted := by
  rcases told_of_course h with ⟨_, told, htold, hfollows⟩
  exact ⟨told, htold, fun key => ⟨hfollows key, (hfollows key).length_le⟩⟩

/-- The key of the only log of a run. -/
def onlyLog : String := "logs/applications/app/jobs/run/SPARK_DRIVER/stdout"

/-- A session with a store that has the only log. -/
def shelf (body : Bytes) (tag : String) : Session Rehearsal :=
  Session.start (Rehearsal.idle
    ⟨1, false, [⟨"bucket", onlyLog, body, body.length, some tag⟩], 0, []⟩) none

/-- A reader that has read the only log. -/
def behind (cursor : LogCursor) : LogReader :=
  { LogReader.make (some (.make "s3" "bucket" "logs")) ⟨"app", "run"⟩ with
    cursors := [(onlyLog, cursor)] }

/-- A log that is drained in the middle of a line, then cut short, and then has
    more lines than it ever had. -/
theorem positions_increase_shortened : ∃ batches : List (LogBatch Rehearsal),
    Course Rehearsal.service FileTree.empty 2
      (LogReader.make (some (.make "s3" "bucket" "logs")) ⟨"app", "run"⟩) batches
      (behind ⟨6, some "v3", 3, none⟩) ∧
    batches.flatMap (·.lines) =
      LogReader.linesOf ⟨"SPARK_DRIVER", "stdout"⟩ ["a", "b", "z"] ∧
    ∃ told : List (List LogVisit),
      List.Forall₂ (Tells Rehearsal.service
        (LogReader.runRoot (.make "s3" "bucket" "logs") ⟨"app", "run"⟩)) batches told ∧
      ∀ key,
        LogCursor.Follows (LogVisit.toKey key told.flatten)
          ((behind ⟨6, some "v3", 3, none⟩).cursors.get? key) ∧
        ((LogVisit.toKey key told.flatten).flatMap LogVisit.messages).length ≤
          (((behind ⟨6, some "v3", 3, none⟩).cursors.get? key).getD .start).emitted := by
  have hfirst : (LogReader.read (Session.host Rehearsal.service FileTree.empty 2) false
      (LogReader.make (some (.make "s3" "bucket" "logs")) ⟨"app", "run"⟩)
      (shelf [97, 10, 98] "v1")).1 =
      some ([⟨⟨"SPARK_DRIVER", "stdout"⟩, "a"⟩], behind ⟨3, some "v1", 1, some "b"⟩) := by
    decide +kernel
  have hdrained : (LogReader.read (Session.host Rehearsal.service FileTree.empty 2) true
      (behind ⟨3, some "v1", 1, some "b"⟩) (shelf [97, 10, 98] "v1")).1 =
      some ([⟨⟨"SPARK_DRIVER", "stdout"⟩, "b"⟩], behind ⟨3, some "v1", 2, none⟩) := by
    decide +kernel
  have hshortened : (LogReader.read (Session.host Rehearsal.service FileTree.empty 2) false
      (behind ⟨3, some "v1", 2, none⟩) (shelf [120, 10] "v2")).1 =
      some ([], behind ⟨2, some "v2", 2, none⟩) := by
    decide +kernel
  have hgrown : (LogReader.read (Session.host Rehearsal.service FileTree.empty 2) false
      (behind ⟨2, some "v2", 2, none⟩) (shelf [120, 10, 121, 10, 122, 10] "v3")).1 =
      some ([⟨⟨"SPARK_DRIVER", "stdout"⟩, "z"⟩], behind ⟨6, some "v3", 3, none⟩) := by
    decide +kernel
  have hcourse := (((Course.start.next (Prod.ext hfirst rfl)).next (Prod.ext hdrained rfl)).next
    (Prod.ext hshortened rfl)).next (Prod.ext hgrown rfl)
  exact ⟨_, hcourse, rfl, positions_increase hcourse⟩

end LogBatch

end BatchRun
