import BatchRun.Proofs.Logs.Destination
import BatchRun.Proofs.Logs.Key
import BatchRun.Proofs.Logs.Positions

/-!
# Logs of Different Runs

Which keys are those of logs, and why no run gets the lines of another one.

The key of a log tells the process and the stream. A name may have slashes in it, and
may look like a stream or like a compressed file itself, but the stream is what stands
behind the last slash, and it is one of two words, so a key can be read in one way
only.

The keys of a run begin with its two ids, each with a slash behind it. Where no id has
a slash of its own, the ids can be told from the key, even where the id of one run
begins with the id of another. So a key that one reader takes for a log, another one
passes by. What a reader delivers are lines of texts that it got as objects with such
keys, so it delivers nothing of another run, even where a service lists logs that were
not asked for.

## Main definitions

* `LogSource.objectKey`: The key of the object with a stream.
* `LogSource.Proper`: A stream that is read.
* `RunHandle.Plain`: No id is empty or has a slash.
* `LogBatch.Got`: A text that was got in some batches.

## Theorems

* `LogSource.ofKey?_eq_some_iff`, `LogSource.objectKey_inj`: Which keys are those of logs,
  and what they tell.
* `LogReader.listing_runRoot`: What the keys of the logs of a run begin with.
* `LogReader.eq_of_ofKey?`: A key tells the run.
* `LogBatch.got_of_course`: Every line is one of a text that was got.
* `LogReader.logs_apart`: All of it.
-/

namespace BatchRun

namespace Text

variable {α : Type} [DecidableEq α]

/-- What stands before the first separator can be told, and what stands behind it. -/
theorem append_cons_inj {separator : α} {first second rest other : List α}
    (hfirst : separator ∉ first) (hsecond : separator ∉ second)
    (h : first ++ separator :: rest = second ++ separator :: other) :
    first = second ∧ rest = other := by
  have hcut := cutAtFirst_append_cons hfirst rest
  rw [h, cutAtFirst_append_cons hsecond other, Option.some.injEq, Prod.mk.injEq] at hcut
  exact ⟨hcut.1.symm, hcut.2.symm⟩

end Text

namespace LogSource

variable {start key : String} {source other : LogSource} {compressed packed : Bool}

/-- What stands behind the last slash of the key of a log. -/
def file (source : LogSource) (compressed : Bool) : List Char :=
  source.stream.toList ++ if compressed then compressedEnding else []

/-- The key of the object with a stream, behind a given start. -/
def objectKey (start : String) (source : LogSource) (compressed : Bool) : String :=
  start ++ source.name ++ "/" ++ source.stream ++
    if compressed then String.ofList compressedEnding else ""

/-- A stream that is read, of a process with a name. -/
def Proper (source : LogSource) : Prop :=
  source.name ≠ "" ∧ (source.stream = "stdout" ∨ source.stream = "stderr")

instance (source : LogSource) : Decidable source.Proper := inferInstanceAs (Decidable (_ ∧ _))

theorem mem_streams_iff {stream : String} :
    stream ∈ streams ↔ stream = "stdout" ∨ stream = "stderr" := by
  rw [streams, List.mem_cons, List.mem_singleton]

theorem toList_objectKey (start : String) (source : LogSource) (compressed : Bool) :
    (objectKey start source compressed).toList =
      start.toList ++ (source.name.toList ++ '/' :: source.file compressed) := by
  cases compressed <;> simp [objectKey, file]

/-- No slash is in it, and the ending is there if the object is compressed. -/
theorem Proper.file_spec (h : source.Proper) (compressed : Bool) :
    '/' ∉ source.file compressed ∧
      Text.beforeEnding compressedEnding (source.file compressed) =
        if compressed then some source.stream.toList else none := by
  rcases h with ⟨_, hstream | hstream⟩ <;> rw [file, hstream] <;> cases compressed <;>
    decide +kernel

/-- The key of a log tells which one it is of. -/
theorem ofKey?_objectKey (h : source.Proper) (start : String) (compressed : Bool) :
    ofKey? start (objectKey start source compressed) = some source := by
  rcases h.file_spec compressed with ⟨hslash, hending⟩
  have hstream : (Text.beforeEnding compressedEnding (source.file compressed)).getD
      (source.file compressed) = source.stream.toList := by
    rw [hending]
    cases compressed with
    | false => exact List.append_nil _
    | true => rfl
  have hname : source.name.toList.isEmpty = false := by
    rw [Bool.eq_false_iff, ne_eq, List.isEmpty_iff, String.toList_eq_nil_iff]
    exact h.1
  have hknown : streams.contains source.stream = true :=
    List.contains_iff_mem.mpr (mem_streams_iff.mpr h.2)
  rw [ofKey?, toList_objectKey, Text.afterStart_append, Option.bind_some,
    Text.cutAtLast_append_cons hslash, Option.bind_some]
  simp only [hstream, hname, String.ofList_toList, hknown, Bool.not_true, Bool.or_self,
    Bool.false_eq_true, if_false]

/-- The keys of logs are those of the streams that are read. -/
theorem ofKey?_eq_some_iff :
    ofKey? start key = some source ↔
      source.Proper ∧ ∃ compressed, key = source.objectKey start compressed := by
  constructor
  · intro h
    -- A key that is read has the form of one, and its ending tells whether it is packed.
    rcases eq_of_ofKey? h with ⟨ending, hending, hname, hstream, hkey⟩
    refine ⟨⟨fun hnone => hname (by rw [hnone]; rfl), mem_streams_iff.mp hstream⟩, ?_⟩
    rcases hending with rfl | rfl
    · exact ⟨false, String.toList_inj.mp (by rw [hkey, toList_objectKey]; rfl)⟩
    · exact ⟨true, String.toList_inj.mp (by rw [hkey, toList_objectKey]; rfl)⟩
  · rintro ⟨hproper, compressed, rfl⟩
    exact ofKey?_objectKey hproper start compressed

/-- A key can be read in one way only. -/
theorem objectKey_inj (hsource : source.Proper) (hother : other.Proper)
    (h : source.objectKey start compressed = other.objectKey start packed) :
    source = other ∧ compressed = packed := by
  have hsame : some source = some other := by
    rw [← ofKey?_objectKey hsource start compressed, h, ofKey?_objectKey hother start packed]
  rw [Option.some.injEq] at hsame
  refine ⟨hsame, ?_⟩
  -- The stream is one and the same, so the files differ in their endings at most.
  rw [← String.toList_inj, toList_objectKey, toList_objectKey, hsame] at h
  have hfile := (List.cons.inj (List.append_cancel_left (List.append_cancel_left h))).2
  have hspec := (hother.file_spec compressed).2
  rw [hfile, (hother.file_spec packed).2] at hspec
  cases compressed <;> cases packed <;> simp_all

end LogSource

/-- No id of a run is empty or has a slash. -/
structure RunHandle.Plain (handle : RunHandle) : Prop where
  application : handle.applicationId ≠ "" ∧ '/' ∉ handle.applicationId.toList
  run : handle.runId ≠ "" ∧ '/' ∉ handle.runId.toList

namespace LogReader

variable {handle other : RunHandle}

/-- What the keys of the logs of a run begin with: both ids, with a slash behind each
    of them. -/
theorem listing_runRoot (h : handle.Plain) (logs : ObjectUri) :
    (runRoot logs handle).listing.toList = (logs.listing ++ "applications/").toList ++
      (handle.applicationId.toList ++ '/' :: ("jobs/".toList ++
        (handle.runId.toList ++ ['/']))) := by
  have hkey := runRoot_eq logs ⟨h.application.1, endsClear_of_not_mem h.application.2⟩
    ⟨h.run.1, endsClear_of_not_mem h.run.2⟩
  rw [ObjectUri.listing_eq (key_runRoot_ne_nil logs handle), hkey]
  simp

/-- The key of a log tells the run. -/
theorem eq_of_ofKey? (hhandle : handle.Plain) (hother : other.Plain) {logs : ObjectUri}
    {key : String} {source source' : LogSource}
    (hkey : LogSource.ofKey? (runRoot logs handle).listing key = some source)
    (hkey' : LogSource.ofKey? (runRoot logs other).listing key = some source') :
    handle = other := by
  rcases LogSource.eq_of_ofKey? hkey with ⟨_, _, _, _, hkey⟩
  rcases LogSource.eq_of_ofKey? hkey' with ⟨_, _, _, _, hkey'⟩
  rw [hkey, listing_runRoot hhandle, listing_runRoot hother] at hkey'
  simp only [List.append_assoc, List.cons_append, List.nil_append,
    List.append_cancel_left_eq] at hkey'
  -- The first slash is behind the first id, and the next one behind the second id.
  rcases Text.append_cons_inj hhandle.application.2 hother.application.2 hkey' with
    ⟨happlication, hrest⟩
  have hrun := (Text.append_cons_inj hhandle.run.2 hother.run.2
    (List.append_cancel_left hrest)).1
  rcases handle with ⟨application, run⟩
  rcases other with ⟨application', run'⟩
  rw [RunHandle.mk.injEq]
  exact ⟨String.toList_inj.mp happlication, String.toList_inj.mp hrun⟩

/-- An id with a slash makes the logs of one run lie below those of another one. -/
example : LogSource.ofKey? (runRoot ⟨"s3", "bucket", "logs"⟩ ⟨"app-1", "run-1"⟩).listing
      "logs/applications/app-1/jobs/run-1/again/SPARK_DRIVER/stdout" =
        some ⟨"again/SPARK_DRIVER", "stdout"⟩ ∧
    LogSource.ofKey? (runRoot ⟨"s3", "bucket", "logs"⟩ ⟨"app-1", "run-1/again"⟩).listing
      "logs/applications/app-1/jobs/run-1/again/SPARK_DRIVER/stdout" =
        some ⟨"SPARK_DRIVER", "stdout"⟩ := by
  decide +kernel

end LogReader

namespace LogVisit

/-- A visit has read a text if a body came that has it. -/
theorem text?_eq_some_iff {visit : LogVisit} {text : List Char} :
    visit.text? = some text ↔ ∃ body, visit.answer = some (.ok body) ∧
      LogCursor.decode? visit.object.key body = some text := by
  unfold text?
  split
  · next body hanswer => simp [hanswer]
  · next hnone =>
      refine iff_of_false (by simp) ?_
      rintro ⟨body, hanswer, _⟩
      exact hnone body hanswer

end LogVisit

/-- A line that was delivered of an object is in a text that one of the visits to this
    object has read. -/
theorem LogCursor.Follows.exists_text {visits : List LogVisit} {cursor : Option LogCursor}
    (h : Follows visits cursor) {visit : LogVisit} (hvisit : visit ∈ visits) {message : String}
    (hmessage : message ∈ visit.messages) :
    ∃ reading ∈ visits, ∃ text, reading.text? = some text ∧ message ∈ messages text := by
  -- The line stands in the text that was read last when this visit was made.
  rcases List.append_of_mem hvisit with ⟨front, back, hsplit⟩
  rcases List.mem_iff_getElem?.mp hmessage with ⟨i, hi⟩
  rcases h.placed front visit back hsplit i message hi with ⟨text, hlast, hplace⟩
  rcases List.mem_filterMap.mp (List.mem_of_getLast? hlast) with ⟨reading, hreading, htext⟩
  refine ⟨reading, ?_, text, htext, List.mem_of_getElem? hplace⟩
  rw [hsplit, ← List.singleton_append, ← List.append_assoc]
  exact List.mem_append_left _ hreading

namespace LogBatch

variable {σ : Type} {service : Service σ} {tree : FileTree} {rounds : Nat} {root : ObjectUri}
  {batches : List (LogBatch σ)} {told : List (List LogVisit)}

/-- A text was got in some batches as that of the object with a key: one of the calls
    was for this object, and the service answered it with a body that has the text. -/
def Got (service : Service σ) (root : ObjectUri) (batches : List (LogBatch σ)) (key : String)
    (text : List Char) : Prop :=
  ∃ batch ∈ batches, ∃ talk body, batch.final.calls = batch.session.calls ++ talk.map (·.call) ∧
    Dialogue service batch.session.state talk batch.final.state ∧
    ⟨.get { root with key }, some (.ok body)⟩ ∈ talk ∧ LogCursor.decode? key body = some text

/-- The lines of some batches are those of the visits. -/
theorem lines_of_told (h : List.Forall₂ (Tells service root) batches told) :
    batches.flatMap (·.lines) = told.flatten.flatMap LogVisit.lines := by
  induction h with
  | nil => rfl
  | cons htells _ ih =>
      rw [List.flatMap_cons, List.flatten_cons, List.flatMap_append, ih, htells.lines_eq]

/-- Every visit is one of a batch. -/
theorem exists_batch_of_told (h : List.Forall₂ (Tells service root) batches told)
    {visit : LogVisit} (hvisit : visit ∈ told.flatten) :
    ∃ batch ∈ batches, ∃ visits, Tells service root batch visits ∧ visit ∈ visits := by
  induction h with
  | nil => exact absurd hvisit List.not_mem_nil
  | @cons batch visits _ _ htells _ ih =>
      rw [List.flatten_cons, List.mem_append] at hvisit
      rcases hvisit with hfirst | hrest
      · exact ⟨batch, List.mem_cons_self, visits, htells, hfirst⟩
      · rcases ih hrest with ⟨later, hlater, hothers⟩
        exact ⟨later, List.mem_cons_of_mem _ hlater, hothers⟩

/-- A text that was read during a visit was got as that of the visited object, which is
    a log. -/
theorem got_of_told {logs : ObjectUri} (hlogs : logs.Normal) {handle : RunHandle}
    (h : List.Forall₂ (Tells service (LogReader.runRoot logs handle)) batches told)
    {visit : LogVisit} (hvisit : visit ∈ told.flatten) :
    LogSource.ofKey? (LogReader.runRoot logs handle).listing visit.object.key =
        some visit.source ∧
      ∀ text, visit.text? = some text →
        Got service (LogReader.runRoot logs handle) batches visit.object.key text := by
  rcases exists_batch_of_told h hvisit with ⟨batch, hbatch, visits, htells, hmem⟩
  rcases htells.said with ⟨talk, hcalls, hdialogue, hbatched, _⟩
  rcases hbatched.of_mem hmem with ⟨hsource, hsaid⟩
  refine ⟨hsource, fun text htext => ?_⟩
  rcases LogVisit.text?_eq_some_iff.mp htext with ⟨body, hanswer, hbody⟩
  refine ⟨batch, hbatch, talk, body, hcalls, hdialogue, hsaid _ ?_, hbody⟩
  -- The object of a log has the key under which it was listed.
  rw [LogVisit.talk, hanswer, LogReader.withKey_runRoot hlogs hsource]
  exact List.mem_singleton_self _

/-- Every line that is delivered is one of a text that was got as that of a log of the
    run, in this batch or an earlier one, and it is put down to the stream of this
    log. -/
theorem got_of_course {logs : ObjectUri} (hlogs : logs.Normal) {handle : RunHandle}
    {reader : LogReader}
    (h : Course service tree rounds (LogReader.make (some logs) handle) batches reader)
    {line : LogLine} (hline : line ∈ batches.flatMap (·.lines)) :
    ∃ key text,
      LogSource.ofKey? (LogReader.runRoot logs handle).listing key = some line.source ∧
      Got service (LogReader.runRoot logs handle) batches key text ∧
      line.message ∈ LogCursor.messages text := by
  rcases told_of_course h with ⟨_, told, htold, hfollows⟩
  rw [lines_of_told htold] at hline
  rcases List.mem_flatMap.mp hline with ⟨visit, hvisit, hline⟩
  rcases List.mem_map.mp hline with ⟨message, hmessage, rfl⟩
  -- The visit that delivered the line need not be the one that has read the text.
  have hown : visit ∈ LogVisit.toKey visit.object.key told.flatten :=
    List.mem_filter.mpr ⟨hvisit, decide_eq_true rfl⟩
  rcases (hfollows visit.object.key).exists_text hown hmessage with
    ⟨reading, hreading, text, htext, hplace⟩
  rcases List.mem_filter.mp hreading with ⟨hreading, hsame⟩
  have hgot := (got_of_told hlogs htold hreading).2 text htext
  rw [of_decide_eq_true hsame] at hgot
  exact ⟨visit.object.key, text, (got_of_told hlogs htold hvisit).1, hgot, hplace⟩

end LogBatch

namespace LogReader

/-- The keys of logs are exactly those of streams that are read, and they can be read
    in one way only. Of two runs with plain ids none has a log under a key that the
    reader of the other one takes. So whatever a service lists and answers, in any
    batches, the lines that a reader delivers are those of logs of its own run, which
    the reader of the other run passes by. -/
theorem logs_apart :
    (∀ start key source, LogSource.ofKey? start key = some source ↔
      source.Proper ∧ ∃ compressed, key = source.objectKey start compressed) ∧
    (∀ start (source other : LogSource) compressed packed, source.Proper → other.Proper →
      source.objectKey start compressed = other.objectKey start packed →
      source = other ∧ compressed = packed) ∧
    ∀ (logs : ObjectUri) (handle other : RunHandle), handle.Plain → other.Plain →
      handle ≠ other →
      (∀ key, LogSource.ofKey? (runRoot logs handle).listing key = none ∨
        LogSource.ofKey? (runRoot logs other).listing key = none) ∧
      (logs.Normal → ∀ {σ : Type} (service : Service σ) (tree : FileTree) (rounds : Nat)
        (batches : List (LogBatch σ)) (reader : LogReader),
        LogBatch.Course service tree rounds (make (some logs) handle) batches reader →
        ∀ line ∈ batches.flatMap (·.lines), ∃ key text,
          LogSource.ofKey? (runRoot logs handle).listing key = some line.source ∧
          LogSource.ofKey? (runRoot logs other).listing key = none ∧
          LogBatch.Got service (runRoot logs handle) batches key text ∧
          line.message ∈ LogCursor.messages text) := by
  refine ⟨fun start key source => LogSource.ofKey?_eq_some_iff,
    fun start source other compressed packed => LogSource.objectKey_inj,
    fun logs handle other hhandle hother hne => ⟨fun key => ?_, ?_⟩⟩
  · by_contra hboth
    rw [not_or, ← ne_eq, ← ne_eq, Option.ne_none_iff_exists', Option.ne_none_iff_exists'] at hboth
    rcases hboth with ⟨⟨source, hsource⟩, ⟨source', hsource'⟩⟩
    exact hne (eq_of_ofKey? hhandle hother hsource hsource')
  · intro hlogs σ service tree rounds batches reader hcourse line hline
    rcases LogBatch.got_of_course hlogs hcourse hline with ⟨key, text, hkey, hgot, hmessage⟩
    refine ⟨key, text, hkey, ?_, hgot, hmessage⟩
    cases hkey' : LogSource.ofKey? (runRoot logs other).listing key with
    | none => rfl
    | some source' => exact absurd (eq_of_ofKey? hhandle hother hkey hkey') hne

/-- The key of the log of a run. -/
def logOf (run : String) : String :=
  "logs/applications/app-1/jobs/" ++ run ++ "/SPARK_DRIVER/stdout"

/-- A service that lists the log of one run, whichever it is asked for. The state says
    of which one. -/
def careless : Service String where
  reply call run :=
    { delay := some (Span.ofMillis 1)
      abandoned := run
      settled := run
      answer := match call with
        | .list _ _ => .ok ⟨[⟨logOf run, 2, none⟩], none⟩
        | .get _ => .ok [97, 10]
        | _ => .error (.invalidRequest "")
      cancels := false }

/-- Two runs, where the id of one begins with the id of the other. The reader of the
    first is shown the log of the second, and then its own. -/
theorem logs_apart_careless :
    ∃ batches reader,
      LogBatch.Course careless FileTree.empty 2
        (make (some ⟨"s3", "bucket", "logs"⟩) ⟨"app-1", "run-1"⟩) batches reader ∧
      batches.flatMap (·.lines) = [⟨⟨"SPARK_DRIVER", "stdout"⟩, "a"⟩] ∧
      LogSource.ofKey? (runRoot ⟨"s3", "bucket", "logs"⟩ ⟨"app-1", "run-1"⟩).listing
        (logOf "run-1") = some ⟨"SPARK_DRIVER", "stdout"⟩ ∧
      (∀ key,
        LogSource.ofKey? (runRoot ⟨"s3", "bucket", "logs"⟩ ⟨"app-1", "run-1"⟩).listing key = none ∨
        LogSource.ofKey? (runRoot ⟨"s3", "bucket", "logs"⟩ ⟨"app-1", "run-10"⟩).listing key =
          none) ∧
      ∀ line ∈ batches.flatMap (·.lines), ∃ key text,
        LogSource.ofKey? (runRoot ⟨"s3", "bucket", "logs"⟩ ⟨"app-1", "run-1"⟩).listing key =
          some line.source ∧
        LogSource.ofKey? (runRoot ⟨"s3", "bucket", "logs"⟩ ⟨"app-1", "run-10"⟩).listing key =
          none ∧
        LogBatch.Got careless (runRoot ⟨"s3", "bucket", "logs"⟩ ⟨"app-1", "run-1"⟩) batches key
          text ∧
        line.message ∈ LogCursor.messages text := by
  have hpassed : (read (Session.host careless FileTree.empty 2) false
      (make (some ⟨"s3", "bucket", "logs"⟩) ⟨"app-1", "run-1"⟩)
      (Session.start "run-10" none)).1 =
      some ([], make (some ⟨"s3", "bucket", "logs"⟩) ⟨"app-1", "run-1"⟩) := by
    decide +kernel
  have hread : (read (Session.host careless FileTree.empty 2) false
      (make (some ⟨"s3", "bucket", "logs"⟩) ⟨"app-1", "run-1"⟩)
      (Session.start "run-1" none)).1 =
      some ([⟨⟨"SPARK_DRIVER", "stdout"⟩, "a"⟩],
        ⟨some (runRoot ⟨"s3", "bucket", "logs"⟩ ⟨"app-1", "run-1"⟩),
          [(logOf "run-1", ⟨2, none, 1, none⟩)]⟩) := by
    decide +kernel
  have hcourse := (LogBatch.Course.start.next (Prod.ext hpassed rfl)).next (Prod.ext hread rfl)
  have hfirst : RunHandle.Plain ⟨"app-1", "run-1"⟩ :=
    ⟨by decide +kernel, by decide +kernel⟩
  have hsecond : RunHandle.Plain ⟨"app-1", "run-10"⟩ :=
    ⟨by decide +kernel, by decide +kernel⟩
  rcases logs_apart.2.2 ⟨"s3", "bucket", "logs"⟩ _ _ hfirst hsecond (by decide +kernel) with
    ⟨hkeys, hlines⟩
  exact ⟨_, _, hcourse, rfl, (logs_apart.1 _ _ _).mpr ⟨by decide +kernel, false, by decide +kernel⟩,
    hkeys, hlines (by decide +kernel) careless FileTree.empty 2 _ _ hcourse⟩

end LogReader

end BatchRun
