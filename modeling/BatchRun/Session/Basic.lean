import BatchRun.Files.Tree
import BatchRun.Host

/-!
# Sessions

Runs in memory, with a clock that only counts.

A service in memory has a state, and tells for every call how long the answer
takes, what the answer is, and what becomes of the state. Time passes only while
something is waited for, so a run takes exactly as long as its waiting. What
happens is kept in order, each event with its moment in nanoseconds.

A limit breaks off whatever waits beyond it; what ends exactly with it still
counts. A call that is broken off has its own effect on the state, because the
service may or may not have got to work on it. Something that waits without end
never comes to its end unless there is a limit, so an action has no result then.

Limits are not nested: only cleaning up has any.

## Main definitions

* `Service`, `Reply`: A service in memory.
* `Event`: What happens in a session.
* `Session`: The state of a run in memory.
* `Action`: Something that is done in a session.
* `Session.host`: A session as a host.
-/

namespace BatchRun

/-- What a service makes of a call. -/
structure Reply (σ : Type) (call : Call) where
  /-- How long the answer takes, unless it never comes. -/
  delay : Option Span
  /-- The state if the answer is no longer waited for. -/
  abandoned : σ
  /-- The state when the answer is there. -/
  settled : σ
  /-- The answer. -/
  answer : Except ServiceError call.Answer
  /-- Whether the run is cancelled just before the answer is there. -/
  cancels : Bool

/-- A service whose state is of a given type. -/
structure Service (σ : Type) where
  reply : (call : Call) → σ → Reply σ call

/-- What happens in a session. -/
inductive Event where
  | asked (call : Call)
  | line (text : String)
  | warned (warning : Warning)
  deriving DecidableEq, Repr

/-- The state of a run in memory: the state of the service, the clock, the limit
    that is set and the moment of the cancellation, if there are any, and what
    has happened so far. -/
structure Session (σ : Type) where
  state : σ
  now : Nat
  deadline : Option Nat
  cancelAt : Option Nat
  events : List (Nat × Event)

/-- Something that is done in a session. Without a result it never ends, or was
    broken off by a limit. -/
def Action (σ α : Type) : Type := Session σ → Option α × Session σ

namespace Action

variable {σ α β : Type}

/-- One action and, if it comes to its end, another one. -/
def andThen (action : Action σ α) (next : α → Action σ β) : Action σ β := fun session =>
  match action session with
  | (some a, session) => next a session
  | (none, session) => (none, session)

instance : Monad (Action σ) where
  pure a := fun session => (some a, session)
  bind := andThen

instance : LawfulMonad (Action σ) :=
  LawfulMonad.mk' (Action σ)
    (fun action => by
      funext session
      change andThen action (fun a session => (some a, session)) session = _
      unfold andThen
      rcases action session with ⟨_ | _, _⟩ <;> rfl)
    (fun _ _ => rfl)
    (fun first second third => by
      funext session
      change andThen (andThen first second) third session =
        andThen first (fun a => andThen (second a) third) session
      unfold andThen
      rcases first session with ⟨_ | _, _⟩ <;> rfl)

end Action

namespace Session

variable {σ : Type}

/-- A session before anything has happened. -/
def start (state : σ) (cancelAt : Option Nat) : Session σ :=
  { state, now := 0, deadline := none, cancelAt, events := [] }

/-- A session in which something happens. -/
def record (session : Session σ) (event : Event) : Session σ :=
  { session with events := session.events ++ [(session.now, event)] }

/-- Notes that something happens. -/
def note (event : Event) : Action σ Unit := fun session =>
  (some (), session.record event)

/-- Lets time pass, or waits without end. -/
def elapse : Option Span → Action σ Unit
  | none => fun session =>
    match session.deadline with
    | none => (none, session)
    | some limit => (none, { session with now := max session.now limit })
  | some span => fun session =>
    match session.deadline with
    | none => (some (), { session with now := session.now + span.nanos })
    | some limit =>
      if span.isZero || session.now + span.nanos ≤ limit then
        (some (), { session with now := session.now + span.nanos })
      else (none, { session with now := max session.now limit })

/-- The earlier of two moments, of which the first may be missing. -/
def earlier : Option Nat → Nat → Nat
  | none, moment => moment
  | some other, moment => min other moment

/-- A session in which an answer has come. -/
def settle {call : Call} (reply : Reply σ call) (session : Session σ) : Session σ :=
  { session with
    state := reply.settled
    cancelAt :=
      if reply.cancels then some (earlier session.cancelAt session.now) else session.cancelAt }

/-- Asks a service. -/
def ask (service : Service σ) (call : Call) : Action σ (Except ServiceError call.Answer) :=
  fun session =>
    let reply := service.reply call session.state
    match elapse reply.delay (session.record (.asked call)) with
    | (some _, session) => (some reply.answer, settle reply session)
    | (none, session) => (none, { session with state := reply.abandoned })

/-- Waits for a span, and tells whether the run was cancelled instead. -/
def pause (span : Span) : Action σ Bool := fun session =>
  match session.cancelAt with
  | none => (elapse (some span)).andThen (fun _ session => (some false, session)) session
  | some moment =>
    if moment ≤ session.now + span.nanos then
      (some true, { session with now := max session.now moment })
    else (elapse (some span)).andThen (fun _ session => (some false, session)) session

/-- Does something for a span at most, and tells whether it came to its end. -/
def within (limit : Span) (action : Action σ Unit) : Action σ Bool := fun session =>
  let (done, after) := action { session with deadline := some (session.now + limit.nanos) }
  (some done.isSome, { after with deadline := session.deadline })

/-- A session as a host, with the files of a tree. -/
def host (service : Service σ) (tree : FileTree) (rounds : Nat) : Host (Action σ) :=
  { call := ask service
    pause
    within
    wait := (elapse none).andThen fun _ session => (none, session)
    emit := fun line => note (.line line)
    warn := fun warning => note (.warned warning)
    files := tree.files
    rounds }

/-- The calls of a session, in order. -/
def calls (session : Session σ) : List Call :=
  session.events.filterMap fun (_, event) =>
    match event with
    | .asked call => some call
    | _ => none

/-- The lines of a session, in order. -/
def lines (session : Session σ) : List String :=
  session.events.filterMap fun (_, event) =>
    match event with
    | .line text => some text
    | _ => none

/-- The warnings of a session, in order. -/
def warnings (session : Session σ) : List Warning :=
  session.events.filterMap fun (_, event) =>
    match event with
    | .warned warning => some warning
    | _ => none

end Session

end BatchRun
