import BatchRun.Logs.Reader
import BatchRun.Proofs.Session.Dialogue

/-!
# Visits to Log Objects

What a batch does, object by object.

A batch is a listing and then a visit to each log that was listed, in the order
of the keys. A visit asks for the object unless that is as it was, and delivers
some lines of the body that was read last. Nothing here is assumed of the
service: it may answer every call as it likes, and list an object as often as it
likes.

There are four things that a visit can do to a cursor, and `LogVisit.Takes` says
once what they are. Whatever holds of a reader over many batches is derived from
these four.

## Main definitions

* `Action.Says`: What an action that comes to its end has said.
* `LogVisit`: What was done with a listed log.
* `LogVisit.text?`, `LogVisit.positions`: The text that a visit has read, and
  where the delivered lines stand in it.
* `LogVisit.Takes`: What a visit does to a cursor.
* `LogReader.Visited`: What some visits do to all cursors.
* `LogReader.Listed`: What is said while the pages of a listing come.
* `LogReader.Batched`: What is said and done in a batch.

## Theorems

* `Action.says_bind`: One action behind another.
* `LogVisit.Takes.isSome_answer_iff`: Which objects are asked for.
* `LogVisit.Takes.eq_of_failed`: What a visit in vain does.
* `LogReader.Listed.not_mem`: A listing that succeeds.
* `LogReader.Visited.get?_eq`: What becomes of an object that was asked for in
  vain.
* `LogReader.Batched.of_mem`: What is visited in a batch is a log.
* `LogReader.says_listAll`, `LogReader.says_readObjects`: The listing, and the
  visits.
* `LogReader.says_read`: A batch is a listing and visits.
-/

namespace BatchRun

namespace Action

variable {σ α β : Type} {service : Service σ}

/-- What an action has said when it comes to its end, and with which result. -/
def Says (service : Service σ) (action : Action σ α) (kind : α → List Exchange → Prop) : Prop :=
  Talks service action fun result talk => ∀ a, result = some a → kind a talk

theorem says_pure {kind : α → List Exchange → Prop} {a : α} (h : kind a []) :
    Says service (pure a) kind := by
  refine talks_pure fun b hb => ?_
  rw [Option.some.injEq] at hb
  rwa [← hb]

/-- One action behind another one says one thing behind the other. -/
theorem says_bind {action : Action σ α} {next : α → Action σ β}
    {first : α → List Exchange → Prop} {kind : β → List Exchange → Prop}
    (h : Says service action first)
    (hnext : ∀ a front, first a front →
      Says service (next a) fun b back => kind b (front ++ back)) :
    Says service (action >>= next) kind :=
  talks_bind h (fun _ _ _ hno => nomatch hno) fun a front hfront => hnext a front (hfront a rfl)

theorem says_ask (call : Call) :
    Says service (Session.ask service call) fun answer talk => talk = [⟨call, some answer⟩] := by
  refine (talks_ask call).mono fun result talk htalk answer hanswer => ?_
  rw [htalk, hanswer]

theorem says_wait (tree : FileTree) (limit : Nat) (kind : α → List Exchange → Prop) :
    Says service ((Session.host service tree limit).wait : Action σ α) kind := by
  refine talks_silently (fun session => ?_) (fun session => ?_) fun session => ?_
  all_goals
    rcases Session.wait_passes (α := α) service tree limit session with ⟨now, hstuck, _⟩
    rw [hstuck]
  · rfl
  · exact fun _ hno => nomatch hno

end Action

/-- What was done with a listed log: the answer, if it was asked for, and the
    lines that were delivered, with the position of the first of them. -/
structure LogVisit where
  object : ObjectSummary
  source : LogSource
  answer : Option (Except ServiceError Bytes)
  first : Nat
  messages : List String

namespace LogVisit

/-- The delivered lines. -/
def lines (visit : LogVisit) : List LogLine :=
  LogReader.linesOf visit.source visit.messages

/-- The positions of the delivered lines in the body that was read last. -/
def positions (visit : LogVisit) : List Nat :=
  List.range' visit.first visit.messages.length

/-- The text that was read, if a body came and could be decoded. -/
def text? (visit : LogVisit) : Option (List Char) :=
  match visit.answer with
  | some (.ok body) => LogCursor.decode? visit.object.key body
  | _ => none

/-- The object was asked for in vain: nothing came, or it could not be
    decoded. -/
def Failed (visit : LogVisit) : Prop :=
  visit.answer ≠ none ∧ visit.text? = none

/-- What was said during a visit to an object below a place. -/
def talk (root : ObjectUri) (visit : LogVisit) : List Exchange :=
  (visit.answer.map fun answer =>
    ⟨.get (root.withKey visit.object.key), some answer⟩).toList

/-- What a visit does to the cursor of an object, if that has one. It is new if
    it has none or is not as it was. -/
inductive Takes (flush : Bool) (object : ObjectSummary) (source : LogSource) :
    Option LogCursor → LogVisit → Option LogCursor → Prop
  /-- What cannot be got or decoded is left as it is. -/
  | vain {cursor : Option LogCursor} {answer : Except ServiceError Bytes}
      (hnew : ∀ c, cursor = some c → c.isCurrent object = false)
      (hbad : ∀ body, answer = .ok body → LogCursor.decode? object.key body = none) :
      Takes flush object source cursor
        ⟨object, source, some answer, (cursor.getD LogCursor.start).emitted, []⟩ cursor
  /-- What is new is read. -/
  | read {cursor : Option LogCursor} {body : Bytes} {text : List Char}
      (hnew : ∀ c, cursor = some c → c.isCurrent object = false)
      (htext : LogCursor.decode? object.key body = some text) :
      Takes flush object source cursor
        ⟨object, source, some (.ok body), (cursor.getD LogCursor.start).emitted,
          ((cursor.getD LogCursor.start).advance object text flush).1⟩
        (some ((cursor.getD LogCursor.start).advance object text flush).2)
  /-- What is as it was is left as it is while more can come. -/
  | idle {cursor : LogCursor} (hcurrent : cursor.isCurrent object = true) (hflush : flush = false) :
      Takes flush object source (some cursor) ⟨object, source, none, cursor.emitted, []⟩
        (some cursor)
  /-- In the end, what was held back is delivered. -/
  | released {cursor : LogCursor} (hcurrent : cursor.isCurrent object = true)
      (hflush : flush = true) :
      Takes flush object source (some cursor)
        ⟨object, source, none, cursor.emitted, cursor.release.1⟩ (some cursor.release.2)

variable {flush : Bool} {object : ObjectSummary} {source : LogSource}
  {cursor after : Option LogCursor} {visit : LogVisit}

/-- A visit tells which object it was to. -/
theorem Takes.object_eq (h : Takes flush object source cursor visit after) :
    visit.object = object := by
  cases h <;> rfl

/-- And whose lines it delivered. -/
theorem Takes.source_eq (h : Takes flush object source cursor visit after) :
    visit.source = source := by
  cases h <;> rfl

/-- An object is asked for exactly if it is new. -/
theorem Takes.isSome_answer_iff (h : Takes flush object source cursor visit after) :
    visit.answer.isSome = true ↔ ∀ c, cursor = some c → c.isCurrent object = false := by
  cases h with
  | vain hnew _ => exact iff_of_true rfl hnew
  | read hnew _ => exact iff_of_true rfl hnew
  | idle hcurrent _ => simp [hcurrent]
  | released hcurrent _ => simp [hcurrent]

/-- A visit in vain leaves the cursor as it is. -/
theorem Takes.eq_of_failed (h : Takes flush object source cursor visit after)
    (hfailed : visit.Failed) : after = cursor := by
  cases h with
  | vain _ _ => rfl
  | read _ htext =>
      -- A visit that has read a text did not fail.
      have hnone := hfailed.2
      simp only [text?, htext] at hnone
      exact absurd hnone (by simp only [reduceCtorEq, not_false_eq_true])
  | idle _ _ => rfl
  | released _ _ => exact absurd rfl hfailed.1

end LogVisit

namespace LogReader

/-- What is said while the pages of a listing come, from a cursor on, and what
    comes of it. -/
inductive Listed (root : ObjectUri) :
    Option String → List Exchange → Except ServiceError (List ObjectSummary) → Prop
  | refused (token : Option String) (error : ServiceError) :
      Listed root token [⟨.list root token, some (.error error)⟩] (.error error)
  | last (token : Option String) {page : ObjectPage} (h : page.nextToken = none) :
      Listed root token [⟨.list root token, some (.ok page)⟩] (.ok page.objects)
  | more (token : Option String) {page : ObjectPage} {next : String}
      (h : page.nextToken = some next) {talk : List Exchange}
      {found : Except ServiceError (List ObjectSummary)}
      (hrest : Listed root (some next) talk found) :
      Listed root token (⟨.list root token, some (.ok page)⟩ :: talk)
        (found.map (page.objects ++ ·))

/-- A visit to one listed log, which leaves the cursors of other objects as they
    are. -/
structure Visiting (flush : Bool) (object : ObjectSummary) (source : LogSource)
    (cursors : Table String LogCursor) (visit : LogVisit) (after : Table String LogCursor) :
    Prop where
  takes : visit.Takes flush object source (cursors.get? object.key) (after.get? object.key)
  others : ∀ key, key ≠ object.key → after.get? key = cursors.get? key

/-- What is made of one listed object, and what is said. Only a log is
    visited. -/
inductive Handles (root : ObjectUri) (flush : Bool) (cursors : Table String LogCursor)
    (object : ObjectSummary) : List LogLine × Table String LogCursor → List Exchange → Prop
  | passed (h : LogSource.ofKey? root.listing object.key = none) :
      Handles root flush cursors object ([], cursors) []
  | visit {source : LogSource} {visit : LogVisit} {after : Table String LogCursor}
      (h : LogSource.ofKey? root.listing object.key = some source)
      (hvisit : Visiting flush object source cursors visit after) :
      Handles root flush cursors object (visit.lines, after) (visit.talk root)

/-- What the visits to some listed objects do to the cursors. -/
inductive Visited (root : ObjectUri) (flush : Bool) :
    Table String LogCursor → List ObjectSummary → List LogVisit → Table String LogCursor → Prop
  | done (cursors : Table String LogCursor) : Visited root flush cursors [] [] cursors
  | passed {cursors after : Table String LogCursor} {object : ObjectSummary}
      {rest : List ObjectSummary} {visits : List LogVisit}
      (h : LogSource.ofKey? root.listing object.key = none)
      (hrest : Visited root flush cursors rest visits after) :
      Visited root flush cursors (object :: rest) visits after
  | visit {cursors between after : Table String LogCursor} {object : ObjectSummary}
      {source : LogSource} {rest : List ObjectSummary} {visit : LogVisit}
      {visits : List LogVisit} (h : LogSource.ofKey? root.listing object.key = some source)
      (hvisit : Visiting flush object source cursors visit between)
      (hrest : Visited root flush between rest visits after) :
      Visited root flush cursors (object :: rest) (visit :: visits) after

/-- What is said and done in a batch below a place. If the listing fails, that is
    all. -/
inductive Batched (root : ObjectUri) (flush : Bool) (reader : LogReader) :
    List Exchange → List LogVisit → LogReader → Prop
  | unlisted {talk : List Exchange} {error : ServiceError}
      (hlisted : Listed root none talk (.error error)) :
      Batched root flush reader talk [] reader
  | listed {listing : List Exchange} {objects : List ObjectSummary} {visits : List LogVisit}
      {cursors : Table String LogCursor} (hlisted : Listed root none listing (.ok objects))
      (hvisited : Visited root flush reader.cursors (objects.mergeSort keyLe) visits cursors) :
      Batched root flush reader (listing ++ visits.flatMap (LogVisit.talk root)) visits
        { reader with cursors }

/-- A listing that succeeds has had no page refused. -/
theorem Listed.not_mem {root : ObjectUri} {token : Option String} {talk : List Exchange}
    {found : Except ServiceError (List ObjectSummary)} (h : Listed root token talk found)
    {objects : List ObjectSummary} (hok : found = .ok objects) (place : ObjectUri)
    (cursor : Option String) (error : ServiceError) :
    ⟨.list place cursor, some (.error error)⟩ ∉ talk := by
  induction h generalizing objects with
  | refused token error => exact nomatch hok
  | last token h => simp
  | @more token page next h talk found hrest ih =>
      cases found with
      | error error => exact nomatch hok
      | ok more =>
          intro hmem
          rcases List.mem_cons.mp hmem with hfirst | hlater
          · simp at hfirst
          · exact ih rfl hlater

/-- The cursor of an object that was visited in vain only, or not at all, is what
    it was. -/
theorem Visited.get?_eq {root : ObjectUri} {flush : Bool} {cursors after : Table String LogCursor}
    {objects : List ObjectSummary} {visits : List LogVisit}
    (h : Visited root flush cursors objects visits after) {key : String}
    (hfailed : ∀ visit ∈ visits, visit.object.key = key → visit.Failed) :
    after.get? key = cursors.get? key := by
  induction h with
  | done => rfl
  | passed _ _ ih => exact ih hfailed
  | @visit cursors between after object source rest visit visits _ hvisit _ ih =>
      rw [ih fun other hother => hfailed other (List.mem_cons_of_mem _ hother)]
      by_cases hkey : object.key = key
      · have hfirst := hfailed visit List.mem_cons_self (by rw [hvisit.takes.object_eq, hkey])
        rw [← hkey]
        exact hvisit.takes.eq_of_failed hfirst
      · exact hvisit.others key (Ne.symm hkey)

/-- Only logs are visited. -/
theorem Visited.ofKey?_eq {root : ObjectUri} {flush : Bool} {cursors after : Table String LogCursor}
    {objects : List ObjectSummary} {visits : List LogVisit}
    (h : Visited root flush cursors objects visits after) :
    ∀ visit ∈ visits, LogSource.ofKey? root.listing visit.object.key = some visit.source := by
  induction h with
  | done => exact fun _ hno => absurd hno List.not_mem_nil
  | passed _ _ ih => exact ih
  | visit hsource hvisit _ ih =>
      refine List.forall_mem_cons.mpr ⟨?_, ih⟩
      rw [hvisit.takes.object_eq, hvisit.takes.source_eq, hsource]

/-- What is visited in a batch is a log, and all that is said during the visit is said
    in the batch. -/
theorem Batched.of_mem {root : ObjectUri} {flush : Bool} {reader after : LogReader}
    {talk : List Exchange} {visits : List LogVisit}
    (h : Batched root flush reader talk visits after) {visit : LogVisit} (hvisit : visit ∈ visits) :
    LogSource.ofKey? root.listing visit.object.key = some visit.source ∧
      ∀ exchange ∈ visit.talk root, exchange ∈ talk := by
  cases h with
  | unlisted _ => exact absurd hvisit List.not_mem_nil
  | listed _ hvisited =>
      exact ⟨hvisited.ofKey?_eq visit hvisit, fun exchange hsaid =>
        List.mem_append_right _ (List.mem_flatMap.mpr ⟨visit, hvisit, hsaid⟩)⟩

variable {σ : Type} {service : Service σ} (tree : FileTree) (limit : Nat) {root : ObjectUri}

/-- The pages of a listing come one after the other, behind what was found
    before. -/
theorem says_listAll (rounds : Nat) (token : Option String) (found : List ObjectSummary) :
    Action.Says service (listAll (Session.host service tree limit) root rounds token found)
      fun answer talk => ∃ more, Listed root token talk more ∧ answer = more.map (found ++ ·) := by
  induction rounds generalizing token found with
  | zero => exact Action.says_wait tree limit _
  | succ rounds ih =>
      refine Action.says_bind (Action.says_ask (.list root token)) fun answer front hfront => ?_
      rw [hfront]
      cases answer with
      | error error => exact Action.says_pure ⟨_, .refused token error, rfl⟩
      | ok page =>
          cases hnext : page.nextToken with
          | none =>
              simp only [hnext]
              exact Action.says_pure ⟨_, .last token hnext, rfl⟩
          | some next =>
              simp only [hnext]
              refine (ih (some next) (found ++ page.objects)).mono
                fun result back hback answer hanswer => ?_
              rcases hback answer hanswer with ⟨more, hmore, rfl⟩
              refine ⟨_, .more token hnext hmore, ?_⟩
              cases more with
              | error error => rfl
              | ok more => simp only [Except.map, List.append_assoc]

/-- Getting a log that is new is a visit to it. -/
theorem says_fetch (flush : Bool) (cursors : Table String LogCursor) {object : ObjectSummary}
    {source : LogSource} (hsource : LogSource.ofKey? root.listing object.key = some source)
    (hnew : ∀ c, cursors.get? object.key = some c → c.isCurrent object = false) :
    Action.Says service (fetch (Session.host service tree limit) root flush cursors object source)
      (Handles root flush cursors object) := by
  refine Action.says_bind (Action.says_ask (.get (root.withKey object.key)))
    fun answer front hfront => ?_
  rw [hfront]
  -- An answer that cannot be read leaves all cursors as they are.
  have hvain : (∀ body, answer = .ok body → LogCursor.decode? object.key body = none) →
      Handles root flush cursors object ([], cursors)
        ([⟨.get (root.withKey object.key), some answer⟩] ++ []) := fun hbad => by
    have htakes : LogVisit.Takes flush object source _ _ _ := .vain hnew hbad
    exact .visit hsource ⟨htakes, fun _ _ => rfl⟩
  cases answer with
  | error error => exact Action.says_pure (hvain fun _ hno => nomatch hno)
  | ok body =>
      cases htext : LogCursor.decode? object.key body with
      | none =>
          simp only [htext]
          refine Action.says_pure (hvain fun other hother => ?_)
          rw [Except.ok.injEq] at hother
          rwa [← hother]
      | some text =>
          simp only [htext]
          have htakes : LogVisit.Takes flush object source _ _ _ := .read hnew htext
          rw [← Table.get?_put_self object.key _ cursors] at htakes
          exact Action.says_pure (.visit hsource
            ⟨htakes, fun key hkey => Table.get?_put_of_ne hkey _ _⟩)

/-- Reading an object is a visit to it, if it is a log. -/
theorem says_readObject (flush : Bool) (cursors : Table String LogCursor)
    (object : ObjectSummary) :
    Action.Says service (readObject (Session.host service tree limit) root flush cursors object)
      (Handles root flush cursors object) := by
  unfold readObject
  cases hsource : LogSource.ofKey? root.listing object.key with
  | none => exact Action.says_pure (.passed hsource)
  | some source =>
      cases hcursor : cursors.get? object.key with
      | none =>
          refine says_fetch tree limit flush cursors hsource fun c hc => ?_
          rw [hcursor] at hc
          exact nomatch hc
      | some cursor =>
          simp only
          by_cases hcurrent : cursor.isCurrent object = true
          · rw [if_pos hcurrent]
            cases flush with
            | false =>
                have htakes : LogVisit.Takes false object source _ _ _ := .idle hcurrent rfl
                rw [← hcursor] at htakes
                exact Action.says_pure (.visit hsource ⟨htakes, fun _ _ => rfl⟩)
            | true =>
                have htakes : LogVisit.Takes true object source _ _ _ := .released hcurrent rfl
                rw [← hcursor, ← Table.get?_put_self object.key cursor.release.2 cursors] at htakes
                exact Action.says_pure (.visit hsource
                  ⟨htakes, fun key hkey => Table.get?_put_of_ne hkey _ _⟩)
          · rw [if_neg hcurrent]
            refine says_fetch tree limit flush cursors hsource fun c hc => ?_
            rw [hcursor, Option.some.injEq] at hc
            rw [← hc]
            exact Bool.eq_false_iff.mpr hcurrent

/-- Reading objects one after the other is visiting the logs among them. -/
theorem says_readObjects (flush : Bool) (cursors : Table String LogCursor)
    (objects : List ObjectSummary) :
    Action.Says service (readObjects (Session.host service tree limit) root flush cursors objects)
      fun result talk => ∃ visits : List LogVisit, talk = visits.flatMap (LogVisit.talk root) ∧
        result.1 = visits.flatMap LogVisit.lines ∧
        Visited root flush cursors objects visits result.2 := by
  induction objects generalizing cursors with
  | nil => exact Action.says_pure ⟨[], rfl, rfl, .done cursors⟩
  | cons object rest ih =>
      refine Action.says_bind (says_readObject tree limit flush cursors object)
        fun new front hnew => ?_
      refine Action.says_bind (ih new.2) fun more back hmore => Action.says_pure ?_
      rcases hmore with ⟨visits, htalk, hlines, hvisited⟩
      rw [List.append_nil, htalk, hlines]
      cases hnew with
      | passed hpassed => exact ⟨visits, rfl, rfl, .passed hpassed hvisited⟩
      | @visit source visit after hsource hvisit =>
          exact ⟨visit :: visits, rfl, rfl, .visit hsource hvisit hvisited⟩

/-- A batch is a listing and visits to the logs that were listed. -/
theorem says_read (flush : Bool) {reader : LogReader} (hroot : reader.root = some root) :
    Action.Says service (read (Session.host service tree limit) flush reader)
      fun result talk => ∃ visits : List LogVisit,
        result.1 = visits.flatMap LogVisit.lines ∧
        Batched root flush reader talk visits result.2 := by
  unfold read
  simp only [hroot]
  refine Action.says_bind (says_listAll tree limit _ none []) fun answer front hfront => ?_
  rcases hfront with ⟨found, hlisted, rfl⟩
  cases found with
  | error error =>
      refine Action.says_pure ⟨[], rfl, ?_⟩
      rw [List.append_nil]
      exact .unlisted hlisted
  | ok objects =>
      refine Action.says_bind (says_readObjects tree limit flush reader.cursors _)
        fun result back hback => Action.says_pure ?_
      rcases hback with ⟨visits, htalk, hlines, hvisited⟩
      rw [List.append_nil, htalk, hlines]
      exact ⟨visits, rfl, hroot ▸ .listed hlisted hvisited⟩

end LogReader

end BatchRun
