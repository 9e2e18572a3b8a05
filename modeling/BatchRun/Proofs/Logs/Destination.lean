import BatchRun.Proofs.Job.Alike
import BatchRun.Proofs.ObjectUri
import BatchRun.Proofs.Session.Dialogue
import BatchRun.Proofs.Store.Storeroom
import BatchRun.Submission

/-!
# Where Logs Are Read

A run's logs are read where the run writes them.

The request that starts a run and the reader of its logs choose a place apart from
each other. Both go by the same order: what the parameters say, then what belongs to
the workspace. If the request names a place, it is the one that is read, and nobody
is asked. If it names none, the run writes where its application does, so the
application is asked, once.

A reader keeps the place at which it was made, however often it reads. Without a
place it asks for nothing and has nothing to say.

## Main definitions

* `LogDestination.ofAnswer`: The destination behind an answer about the application.
* `LogReader.Reached`: What becomes of a reader.

## Theorems

* `LogDestination.resolve_of_effective`, `LogDestination.resolve_of_none`: The choice
  of a place, by the choice of the request.
* `LogDestination.uri?_ofAnswer`: When the application has a place.
* `LogReader.runRoot_eq`: The place below which a run has its logs.
* `LogReader.root_of_read`, `LogReader.root_of_reached`: A reader keeps its place.
* `LogReader.reads_of_reached`, `LogReader.read_of_nowhere`: What a reader asks for.
* `LogDestination.read_where_written`: Logs are read where they are written.
-/

namespace BatchRun

namespace ObjectUri

variable {segment : String}

/-- A clear segment is put behind what the keys below an address begin with. -/
theorem join_eq (uri : ObjectUri) (hne : segment ≠ "") (hclear : EndsClear segment.toList) :
    uri.join segment = { uri with key := uri.listing ++ segment } := by
  have hsegment : segment.isEmpty = false := by
    rw [Bool.eq_false_iff, ne_eq, String.isEmpty_iff]
    exact hne
  -- Nothing is trimmed from the segment, so only the key decides about the slash.
  rw [join, trimSlashes_of_endsClear hclear, String.ofList_toList, hsegment, listing]
  cases hkey : uri.key.isEmpty with
  | true => simp only [Bool.false_eq_true, if_false, if_true, String.empty_append]
  | false => rfl

/-- What the keys below the joined address begin with. -/
theorem listing_join (uri : ObjectUri) (hne : segment ≠ "") (hclear : EndsClear segment.toList) :
    (uri.join segment).listing = uri.listing ++ segment ++ "/" := by
  have hkey : (uri.listing ++ segment).isEmpty = false := by
    rw [Bool.eq_false_iff, ne_eq, String.isEmpty_iff, String.append_eq_empty_iff]
    exact fun h => hne h.2
  rw [join_eq uri hne hclear, listing, hkey]
  rfl

end ObjectUri

namespace LogDestination

variable {m : Type → Type} [Monad m] (host : Host m) {params : RunParameters}
  {workspace : Option Workspace}

/-- The destination behind an answer about the application. -/
def ofAnswer : Except ServiceError Application → LogDestination
  | .ok found => ofApplication found
  | .error _ => nowhere

/-- Where the request names a place, this is the destination. -/
theorem resolve_of_effective {uri : ObjectUri} (handle : RunHandle)
    (h : Submission.effectiveLogUri params workspace = some uri) :
    ∃ destination, destination.uri? = some uri ∧
      resolve host params workspace handle = pure destination := by
  unfold Submission.effectiveLogUri at h
  unfold resolve
  cases hlogs : params.logs with
  | some logs =>
      rw [hlogs] at h
      exact ⟨.explicit logs, h, rfl⟩
  | none =>
      rw [hlogs] at h
      cases workspace with
      | some staged => exact ⟨.workspace staged.logs, h, rfl⟩
      | none => exact nomatch h

/-- Where it names none, the application is asked. -/
theorem resolve_of_none (handle : RunHandle)
    (h : Submission.effectiveLogUri params workspace = none) :
    resolve host params workspace handle = (do
      let answer ← host.call (.application handle.applicationId)
      pure (ofAnswer answer)) := by
  unfold Submission.effectiveLogUri at h
  unfold resolve
  cases hlogs : params.logs with
  | some logs =>
      rw [hlogs] at h
      exact nomatch h
  | none =>
      rw [hlogs] at h
      cases workspace with
      | some staged => exact nomatch h
      | none =>
          -- The same call is made, and the same is made of every answer.
          refine congrArg (host.call (.application handle.applicationId) >>= ·)
            (funext fun answer => ?_)
          cases answer with
          | ok found => rfl
          | error error => rfl

theorem uri?_eq_none_iff {destination : LogDestination} :
    destination.uri? = none ↔ destination = nowhere := by
  cases destination <;> simp only [uri?, reduceCtorEq]

/-- The place that an application names is a text that is not empty. -/
theorem logUri?_eq_some_iff {found : Application} {text : String} :
    found.logUri? = some text ↔ found.monitoring = some (some (some text)) ∧ text ≠ "" := by
  rw [Application.logUri?, Option.filter_eq_some_iff, Option.join_eq_some_iff,
    Option.join_eq_some_iff, Bool.not_eq_true', Bool.eq_false_iff, ne_eq, String.isEmpty_iff]

/-- It is the destination if it can be read. -/
theorem uri?_ofApplication {found : Application} {uri : ObjectUri} :
    (ofApplication found).uri? = some uri ↔
      ∃ text, found.logUri? = some text ∧ ObjectUri.parse text = .ok uri := by
  rw [ofApplication]
  cases hnamed : found.logUri? with
  | none => simp only [Option.map_none, uri?, reduceCtorEq, false_and, exists_false]
  | some text =>
      cases hread : ObjectUri.parse text with
      | ok there =>
          simp only [Option.map_some, hread, uri?, Option.some.injEq, exists_eq_left',
            Except.ok.injEq]
      | error fault =>
          simp only [Option.map_some, hread, uri?, Option.some.injEq, exists_eq_left',
            reduceCtorEq]

theorem uri?_ofAnswer {answer : Except ServiceError Application} {uri : ObjectUri} :
    (ofAnswer answer).uri? = some uri ↔ ∃ found text, answer = .ok found ∧
      found.monitoring = some (some (some text)) ∧ text ≠ "" ∧
      ObjectUri.parse text = .ok uri := by
  cases answer with
  | error error =>
      simp only [ofAnswer, uri?, reduceCtorEq, false_and, exists_false]
  | ok found =>
      simp only [ofAnswer, uri?_ofApplication, logUri?_eq_some_iff, Except.ok.injEq,
        exists_and_left, exists_eq_left', and_assoc]

end LogDestination

namespace LogReader

variable {σ : Type} {service : Service σ} (tree : FileTree) (rounds : Nat)

/-- The place below which a run has its logs. -/
theorem runRoot_eq (logs : ObjectUri) {handle : RunHandle}
    (happlication : handle.applicationId ≠ "" ∧ EndsClear handle.applicationId.toList)
    (hrun : handle.runId ≠ "" ∧ EndsClear handle.runId.toList) :
    runRoot logs handle = { logs with
      key := logs.listing ++ "applications/" ++ handle.applicationId ++ "/jobs/" ++
        handle.runId } := by
  have happlications : "applications" ≠ "" ∧ EndsClear "applications".toList := by decide +kernel
  have hjobs : "jobs" ≠ "" ∧ EndsClear "jobs".toList := by decide +kernel
  -- The last segment stands behind a listing, which is taken apart segment by segment.
  rw [runRoot, ObjectUri.join_eq _ hrun.1 hrun.2, ObjectUri.listing_join _ hjobs.1 hjobs.2,
    ObjectUri.listing_join _ happlication.1 happlication.2,
    ObjectUri.listing_join _ happlications.1 happlications.2,
    ObjectUri.join_eq _ hjobs.1 hjobs.2, ObjectUri.join_eq _ happlication.1 happlication.2,
    ObjectUri.join_eq _ happlications.1 happlications.2]
  have hfirst : "applications/" = "applications" ++ "/" := rfl
  have hsecond : "/jobs/" = "/" ++ "jobs" ++ "/" := rfl
  simp only [hfirst, hsecond, String.append_assoc]

/-- What becomes of a reader that is used, in any sessions. -/
inductive Reached (host : Host (Action σ)) (first : LogReader) : LogReader → Prop
  | start : Reached host first first
  | read {reader next : LogReader} (h : Reached host first reader) {flush : Bool}
      {lines : List LogLine} {session final : Session σ}
      (hread : LogReader.read host flush reader session = (some (lines, next), final)) :
      Reached host first next

/-- One read leaves the reader at its place. -/
theorem root_of_read {reader next : LogReader} {flush : Bool} {lines : List LogLine}
    {session final : Session σ}
    (h : read (Session.host service tree rounds) flush reader session =
      (some (lines, next), final)) : next.root = reader.root := by
  -- A read is alike with any two services, so with one and the same as well.
  rcases (show Alike service service _ _ _ _ from
    alike_read tree rounds flush reader).talks session with ⟨talk, _, _, _, hroot⟩
  rw [h] at hroot
  exact hroot _ rfl

/-- So it keeps its place. -/
theorem root_of_reached {first reader : LogReader}
    (h : Reached (Session.host service tree rounds) first reader) : reader.root = first.root := by
  induction h with
  | start => rfl
  | read _ hread ih => exact (root_of_read tree rounds hread).trans ih

/-- What a read asks for is below this place. -/
theorem reads_of_reached {first reader : LogReader}
    (h : Reached (Session.host service tree rounds) first reader) (flush : Bool)
    (session : Session σ) :
    ∃ made, (read (Session.host service tree rounds) flush reader session).2.calls =
      session.calls ++ made ∧ ∀ call ∈ made, Reads first.root call := by
  rcases (show Alike service service _ _ _ _ from
    alike_read tree rounds flush reader).talks session with ⟨talk, hcalls, _, hreads, _⟩
  refine ⟨_, hcalls, fun call hcall => ?_⟩
  rcases List.mem_map.mp hcall with ⟨exchange, hexchange, rfl⟩
  rw [← root_of_reached tree rounds h]
  exact hreads exchange hexchange

/-- A reader without a place has nothing to ask and nothing to say. -/
theorem read_of_nowhere {first reader : LogReader}
    (h : Reached (Session.host service tree rounds) first reader) (hroot : first.root = none)
    (flush : Bool) (session : Session σ) :
    read (Session.host service tree rounds) flush reader session =
      (some ([], reader), session) := by
  have hnone : reader.root = none := (root_of_reached tree rounds h).trans hroot
  rw [read, hnone]
  rfl

end LogReader

namespace LogDestination

variable {σ : Type} (service : Service σ) (tree : FileTree) (rounds : Nat)

/-- Asking for the application is one call, and its answer decides. -/
theorem resolve_asks {params : RunParameters} {workspace : Option Workspace} (handle : RunHandle)
    (h : Submission.effectiveLogUri params workspace = none) (session : Session σ) :
    (resolve (Session.host service tree rounds) params workspace handle session).2.calls =
        session.calls ++ [.application handle.applicationId] ∧
      (session.deadline = none →
        (service.reply (.application handle.applicationId) session.state).delay ≠ none →
        ∃ destination final, resolve (Session.host service tree rounds) params workspace handle
          session = (some destination, final)) ∧
      ∀ destination final,
        resolve (Session.host service tree rounds) params workspace handle session =
          (some destination, final) →
        destination =
          ofAnswer (service.reply (.application handle.applicationId) session.state).answer := by
  rw [resolve_of_none _ handle h]
  refine ⟨?_, fun hlimit hdelay => ?_, fun destination final hresolved => ?_⟩
  · -- The call is on record whether it is answered or not.
    rw [← Session.calls_ask service (.application handle.applicationId) session]
    rcases hasked : Session.ask service (.application handle.applicationId) session with
      ⟨_ | answer, asked⟩
    · exact congrArg (fun done : _ × Session σ => done.2.calls) (Action.bind_of_none hasked)
    · exact congrArg (fun done : _ × Session σ => done.2.calls) (Action.bind_of_some hasked)
  · rcases Option.ne_none_iff_exists'.mp hdelay with ⟨span, hspan⟩
    exact ⟨_, _, Action.bind_of_some (Session.ask_of_delay hlimit hspan)⟩
  · rcases Action.eq_of_bind hresolved with ⟨answer, _, hasked, hresolved⟩
    rw [(Session.eq_of_ask hasked).1]
    exact (Action.eq_of_pure hresolved).1.symm

/-- A reader of a destination lists nothing but the place of the run there. -/
theorem lists_of_reached {destination : LogDestination} {handle : RunHandle} {reader : LogReader}
    (h : LogReader.Reached (Session.host service tree rounds)
      (LogReader.make destination.uri? handle) reader) (flush : Bool) (session : Session σ) :
    ∃ made, (reader.read (Session.host service tree rounds) flush session).2.calls =
        session.calls ++ made ∧
      ∀ root token, .list root token ∈ made →
        ∃ uri, destination.uri? = some uri ∧ root = LogReader.runRoot uri handle := by
  rcases LogReader.reads_of_reached tree rounds h flush session with ⟨made, hmade, hreads⟩
  refine ⟨made, hmade, fun root token hlist => ?_⟩
  cases hreads _ hlist with
  | list hroot _ =>
      rcases Option.map_eq_some_iff.mp hroot with ⟨uri, huri, hplace⟩
      exact ⟨uri, huri, hplace.symm⟩

/-- Logs are read where they are written, whatever the parameters, the workspace and
    the answers are. If the request names a place, that place is read and nobody is
    asked. If it names none, the application is asked once, and the place that it
    names is read, if it names one that is one. A reader lists nothing but what is
    below its place, by the application and the run, and without a place it does
    nothing at all. -/
theorem read_where_written (params : RunParameters) (workspace : Option Workspace)
    (environment : Table String String) (name token : String) (handle : RunHandle) :
    (∀ text,
      (Submission.build params workspace environment name token).logUri = some text →
        ∃ destination uri, destination.uri? = some uri ∧ uri.text = text ∧
          ∀ session, resolve (Session.host service tree rounds) params workspace handle session =
            (some destination, session)) ∧
    ((Submission.build params workspace environment name token).logUri = none →
      ∀ session,
        (resolve (Session.host service tree rounds) params workspace handle session).2.calls =
          session.calls ++ [.application handle.applicationId] ∧
        (session.deadline = none →
          (service.reply (.application handle.applicationId) session.state).delay ≠ none →
          ∃ destination final, resolve (Session.host service tree rounds) params workspace handle
            session = (some destination, final)) ∧
        ∀ destination final,
          resolve (Session.host service tree rounds) params workspace handle session =
            (some destination, final) →
          (∀ uri, destination.uri? = some uri ↔ ∃ found text,
            (service.reply (.application handle.applicationId) session.state).answer =
              .ok found ∧ found.monitoring = some (some (some text)) ∧ text ≠ "" ∧
            ObjectUri.parse text = .ok uri) ∧
          (destination.uri? = none ↔ destination = nowhere)) ∧
    ∀ destination reader,
      LogReader.Reached (Session.host service tree rounds)
        (LogReader.make destination.uri? handle) reader →
      ∀ flush session, ∃ made,
        (reader.read (Session.host service tree rounds) flush session).2.calls =
          session.calls ++ made ∧
        ((handle.applicationId ≠ "" ∧ EndsClear handle.applicationId.toList) →
          (handle.runId ≠ "" ∧ EndsClear handle.runId.toList) →
          ∀ root token, .list root token ∈ made → ∃ uri, destination.uri? = some uri ∧
            root = { uri with
              key := uri.listing ++ "applications/" ++ handle.applicationId ++ "/jobs/" ++
                handle.runId }) ∧
        (destination = nowhere → made = [] ∧
          reader.read (Session.host service tree rounds) flush session =
            (some ([], reader), session)) := by
  refine ⟨fun text htext => ?_, fun hnone session => ?_,
    fun destination reader h flush session => ?_⟩
  · -- The text in the request is the one of the place that it goes by.
    rcases Option.map_eq_some_iff.mp htext with ⟨uri, heffective, hshown⟩
    rcases resolve_of_effective (Session.host service tree rounds) handle heffective with
      ⟨destination, huri, hresolve⟩
    refine ⟨destination, uri, huri, hshown, fun session => ?_⟩
    rw [hresolve]
    rfl
  · rcases resolve_asks service tree rounds handle (Option.map_eq_none_iff.mp hnone) session with
      ⟨hcalls, hends, hanswered⟩
    refine ⟨hcalls, hends, fun destination final hresolved => ⟨fun uri => ?_, uri?_eq_none_iff⟩⟩
    rw [hanswered destination final hresolved]
    exact uri?_ofAnswer
  · rcases lists_of_reached service tree rounds h flush session with ⟨made, hmade, hlists⟩
    refine ⟨made, hmade, fun happlication hrun root token hlist => ?_, fun hnowhere => ?_⟩
    · rcases hlists root token hlist with ⟨uri, huri, rfl⟩
      exact ⟨uri, huri, LogReader.runRoot_eq uri happlication hrun⟩
    · have hnone : (LogReader.make destination.uri? handle).root = none := by
        rw [hnowhere]
        rfl
      have hread := LogReader.read_of_nowhere tree rounds h hnone flush session
      rw [hread] at hmade
      exact ⟨List.self_eq_append_right.mp hmade, hread⟩

/-- Parameters that say nothing about logs. -/
def silent : RunParameters where
  applicationId := "app-1"
  executionRole := "arn:r"
  entrypoint := "main.py"
  args := []
  config := ""
  timeout := none
  region := "us-east-1"
  logs := none
  workspace := none

/-- A control plane that knows where the application writes its logs. -/
def telling : Rehearsal where
  store := ⟨1, false, [], 0, []⟩
  plane := { (Rehearsal.idle ⟨1, false, [], 0, []⟩).plane with
    application := .ok ⟨"app-1", none, none, some (some (some "s3://bucket/logs"))⟩ }

/-- A run that was told nothing has its logs where the application has them, and
    they are read below the place of the run there. One that was told where to write
    has them there. -/
theorem read_where_written_silent :
    (∃ destination final made,
      resolve (Session.host Rehearsal.service FileTree.empty 9) silent none ⟨"app-1", "run-1"⟩
        (Session.start telling none) = (some destination, final) ∧
      final.calls = [.application "app-1"] ∧
      destination.uri? = some ⟨"s3", "bucket", "logs"⟩ ∧
      ((LogReader.make destination.uri? ⟨"app-1", "run-1"⟩).read
        (Session.host Rehearsal.service FileTree.empty 9) false
        (Session.start telling none)).2.calls = made ∧
      made ≠ [] ∧ ∀ root token, .list root token ∈ made →
        root = ⟨"s3", "bucket", "logs/applications/app-1/jobs/run-1"⟩) ∧
    ∃ destination uri, destination.uri? = some uri ∧ uri.text = "s3://bucket/own" ∧
      ∀ session, resolve (Session.host Rehearsal.service FileTree.empty 9)
        { silent with logs := some ⟨"s3", "bucket", "own"⟩ } none ⟨"app-1", "run-1"⟩ session =
        (some destination, session) := by
  have hclear : ∀ id ∈ ["app-1", "run-1"], id ≠ "" ∧ EndsClear id.toList := by decide +kernel
  rw [List.forall_mem_cons, List.forall_mem_singleton] at hclear
  rcases read_where_written Rehearsal.service FileTree.empty 9 silent none [] "load" "token"
    ⟨"app-1", "run-1"⟩ with ⟨_, hasked, hread⟩
  rcases hasked rfl (Session.start telling none) with ⟨hcalls, hends, hanswered⟩
  rcases hends rfl (Option.some_ne_none _) with ⟨destination, final, hresolved⟩
  rw [hresolved] at hcalls
  have huri : destination.uri? = some ⟨"s3", "bucket", "logs"⟩ :=
    ((hanswered destination final hresolved).1 _).mpr
      ⟨_, "s3://bucket/logs", rfl, rfl, by decide, by rfl⟩
  refine ⟨⟨destination, final, _, hresolved, hcalls, huri, rfl, ?_, ?_⟩, ?_⟩
  · rw [huri]
    decide +kernel
  · rcases hread destination _ .start false (Session.start telling none) with
      ⟨made, hmade, hlists, _⟩
    intro root token hlist
    rw [hmade] at hlist
    rcases hlists hclear.1 hclear.2 root token hlist with ⟨uri, hplace, hroot⟩
    rw [huri, Option.some.injEq] at hplace
    rw [hroot, ← hplace]
    decide +kernel
  · exact (read_where_written Rehearsal.service FileTree.empty 9
      { silent with logs := some ⟨"s3", "bucket", "own"⟩ } none [] "load" "token"
      ⟨"app-1", "run-1"⟩).1 "s3://bucket/own" (by decide +kernel)

end LogDestination

end BatchRun
