import BatchRun.Logs.Reader
import BatchRun.Proofs.Session.Action

/-!
# What Is on Record

Polls, lines and warnings, and what adds none of them.

Of all that happens while a run is followed, the polls, the lines and the warnings
are the doings of supervision itself. The account of a session has these in order,
each with its moment, and the transcript has them without. What a consumer of logs
asks of the store is not among them, so a discreet consumer leaves the account as
it was. The session only goes on: the clock does not go back, a limit stays as it
is, and a cancellation may come earlier than it would have, but is never called
off.

## Main definitions

* `Session.account`, `Session.transcript`: The doings of supervision.
* `Session.polledAt`: The moments of the polls.
* `Session.say`: A session in which some things happen at once.
* `Session.IsCancelled`: The moment of the cancellation has come.
* `Session.Onward`: One session comes after another one.
* `Action.Discreet`: An action that adds nothing to the account.

## Theorems

* `Session.filterMap_account`: What is read off the account.
* `Session.Onward.isCancelled`: A cancellation is never called off.
* `Session.onward_ask`, `Session.passes_of_pause`, `Session.onward_wait`: Calls, pauses,
  and waiting without end.
* `LogReader.discreet_read`: Reading logs is discreet.
-/

namespace BatchRun

namespace Event

/-- Whether something is done by supervision itself. -/
def isOwn : Event → Bool
  | asked (.attempts _ _) => true
  | asked _ => false
  | line _ => true
  | warned _ => true

/-- The text of a line. -/
def line? : Event → Option String
  | line text => some text
  | _ => none

/-- What a warning says. -/
def warning? : Event → Option Warning
  | warned warning => some warning
  | _ => none

/-- Whether a service is asked for the attempts at a run. -/
def isPoll : Event → Bool
  | asked (.attempts _ _) => true
  | _ => false

theorem isOwn_of_isPoll {event : Event} (h : event.isPoll = true) : event.isOwn = true := by
  cases event with
  | asked call =>
      cases call with
      | attempts handle token => rfl
      | _ => exact absurd h (by simp only [isPoll, Bool.false_eq_true, not_false_eq_true])
  | line text => rfl
  | warned warning => rfl

end Event

namespace Session

variable {σ : Type}

/-- What supervision itself has done, each with its moment. -/
def account (session : Session σ) : List (Nat × Event) :=
  session.events.filter fun entry => entry.2.isOwn

/-- What supervision itself has done. -/
def transcript (session : Session σ) : List Event :=
  session.account.map (·.2)

/-- The moments of the polls. -/
def polledAt (session : Session σ) : List Nat :=
  session.events.filterMap fun entry => if entry.2.isPoll then some entry.1 else none

/-- A session in which some things happen at once. -/
def say (session : Session σ) (told : List Event) : Session σ :=
  { session with events := session.events ++ told.map fun event => (session.now, event) }

/-- The moment of the cancellation has come. -/
def IsCancelled (session : Session σ) : Prop :=
  ∃ moment, session.cancelAt = some moment ∧ moment ≤ session.now

/-- One session comes after another one. -/
structure Onward (session next : Session σ) : Prop where
  deadline_eq : next.deadline = session.deadline
  now_le : session.now ≤ next.now
  cancelAt_le : ∀ moment, session.cancelAt = some moment →
    ∃ sooner, next.cancelAt = some sooner ∧ sooner ≤ moment

/-- What only looks at the doings of supervision can be read off the account. -/
theorem filterMap_account {α : Type} {f : Nat × Event → Option α}
    (hf : ∀ entry, entry.2.isOwn = false → f entry = none) (session : Session σ) :
    session.account.filterMap f = session.events.filterMap f := by
  unfold account
  rw [List.filterMap_filter]
  congr 1
  funext entry
  by_cases hown : entry.2.isOwn = true
  · rw [if_pos hown]
  · rw [if_neg hown, hf entry (by rwa [Bool.not_eq_true] at hown)]

theorem polledAt_eq (session : Session σ) :
    session.polledAt =
      session.account.filterMap fun entry => if entry.2.isPoll then some entry.1 else none := by
  refine (filterMap_account (fun entry hother => if_neg fun hpoll => ?_) session).symm
  rw [Event.isOwn_of_isPoll hpoll] at hother
  exact absurd hother (by decide)

theorem lines_eq (session : Session σ) :
    session.lines = session.transcript.filterMap Event.line? := by
  have hread := filterMap_account (f := fun entry => entry.2.line?) (fun entry hother => by
    rcases entry with ⟨moment, event⟩
    cases event with
    | line text => exact absurd hother (by simp only [Event.isOwn, Bool.true_eq_false,
        not_false_eq_true])
    | asked call => rfl
    | warned warning => rfl) session
  rw [transcript, List.filterMap_map]
  exact hread.symm

theorem warnings_eq (session : Session σ) :
    session.warnings = session.transcript.filterMap Event.warning? := by
  have hread := filterMap_account (f := fun entry => entry.2.warning?) (fun entry hother => by
    rcases entry with ⟨moment, event⟩
    cases event with
    | warned warning => exact absurd hother (by simp only [Event.isOwn, Bool.true_eq_false,
        not_false_eq_true])
    | asked call => rfl
    | line text => rfl) session
  rw [transcript, List.filterMap_map]
  exact hread.symm

/-! ## Things said -/

theorem say_nil (session : Session σ) : session.say [] = session := by
  simp only [say, List.map_nil, List.append_nil]

theorem say_say (session : Session σ) (first second : List Event) :
    (session.say first).say second = session.say (first ++ second) := by
  simp only [say, List.map_append, List.append_assoc]

/-- What is said at once goes on record at that moment. -/
theorem account_say {told : List Event} (hown : ∀ event ∈ told, event.isOwn = true)
    (session : Session σ) :
    (session.say told).account =
      session.account ++ told.map fun event => (session.now, event) := by
  unfold account say
  rw [List.filter_append]
  congr 1
  refine List.filter_eq_self.mpr fun entry hentry => ?_
  rcases List.mem_map.mp hentry with ⟨event, hevent, rfl⟩
  exact hown event hevent

/-! ## Going on -/

namespace Onward

variable {session middle next : Session σ}

theorem refl (session : Session σ) : session.Onward session :=
  ⟨rfl, Nat.le_refl _, fun moment hmoment => ⟨moment, hmoment, Nat.le_refl _⟩⟩

theorem trans (hfirst : session.Onward middle) (hsecond : middle.Onward next) :
    session.Onward next := by
  refine ⟨hsecond.deadline_eq.trans hfirst.deadline_eq,
    Nat.le_trans hfirst.now_le hsecond.now_le, fun moment hmoment => ?_⟩
  rcases hfirst.cancelAt_le moment hmoment with ⟨sooner, hsooner, hle⟩
  rcases hsecond.cancelAt_le sooner hsooner with ⟨soonest, hsoonest, hless⟩
  exact ⟨soonest, hsoonest, Nat.le_trans hless hle⟩

theorem say (session : Session σ) (told : List Event) : session.Onward (session.say told) :=
  ⟨rfl, Nat.le_refl _, fun moment hmoment => ⟨moment, hmoment, Nat.le_refl _⟩⟩

theorem passes {now : Nat} (hnow : session.now ≤ now) : session.Onward { session with now } :=
  ⟨rfl, hnow, fun moment hmoment => ⟨moment, hmoment, Nat.le_refl _⟩⟩

/-- A cancellation is never called off. -/
theorem isCancelled (h : session.Onward next) (hcancelled : session.IsCancelled) :
    next.IsCancelled := by
  rcases hcancelled with ⟨moment, hmoment, hdue⟩
  rcases h.cancelAt_le moment hmoment with ⟨sooner, hsooner, hle⟩
  exact ⟨sooner, hsooner, Nat.le_trans hle (Nat.le_trans hdue h.now_le)⟩

/-- A session that goes on past the moment of a cancellation is cancelled. -/
theorem isCancelled_of_le (h : session.Onward next) {moment : Nat}
    (hmoment : session.cancelAt = some moment) (hpast : moment ≤ next.now) :
    next.IsCancelled := by
  rcases h.cancelAt_le moment hmoment with ⟨sooner, hsooner, hle⟩
  exact ⟨sooner, hsooner, Nat.le_trans hle hpast⟩

end Onward

theorem earlier_le {cancelAt : Option Nat} {moment now : Nat} (h : cancelAt = some moment) :
    earlier cancelAt now ≤ moment := by
  rw [h]
  exact Nat.min_le_left _ _

/-- An answer may come with a cancellation, which is then no later than one that
    was due anyway. -/
theorem onward_settle {call : Call} (reply : Reply σ call) (session : Session σ) :
    session.Onward (settle reply session) := by
  refine ⟨rfl, Nat.le_refl _, fun moment hmoment => ?_⟩
  by_cases hcancels : reply.cancels = true
  · refine ⟨earlier session.cancelAt session.now, ?_, earlier_le hmoment⟩
    simp only [settle, hcancels, if_true]
  · refine ⟨moment, ?_, Nat.le_refl _⟩
    simp only [settle, hcancels, Bool.false_eq_true, if_false]
    exact hmoment

/-- A session goes on with a call, whether that is answered or not. -/
theorem onward_ask (service : Service σ) (call : Call) (session : Session σ) :
    session.Onward (ask service call session).2 := by
  rcases ask_cases service call session with ⟨now, hnow, _, hasked | hasked⟩
  · rw [hasked]
    have hput : session.Onward { session.record (.asked call) with now } :=
      (Onward.say session [.asked call]).trans (.passes hnow)
    exact hput.trans (onward_settle _ _)
  · rw [hasked]
    exact ⟨rfl, hnow, fun moment hmoment => ⟨moment, hmoment, Nat.le_refl _⟩⟩

/-- An answer that comes with a cancellation leaves a session that is cancelled. -/
theorem isCancelled_of_ask {service : Service σ} {call : Call} {session next : Session σ}
    {answer : Except ServiceError call.Answer}
    (hasked : ask service call session = (some answer, next))
    (hcancels : (service.reply call session.state).cancels = true) : next.IsCancelled := by
  rcases ask_cases service call session with ⟨now, _, _, hother | hother⟩
  · rw [hother, Prod.mk.injEq] at hasked
    rw [← hasked.2]
    refine ⟨earlier session.cancelAt now, ?_, ?_⟩
    · simp only [settle, hcancels, if_true, record]
    · change earlier session.cancelAt now ≤ now
      cases session.cancelAt with
      | none => exact Nat.le_refl _
      | some moment => exact Nat.min_le_right _ _
  · rw [hother, Prod.mk.injEq] at hasked
    exact absurd hasked.1 (by simp only [reduceCtorEq, not_false_eq_true])

/-- Only time passes in a pause, whether it is broken off or not. -/
theorem passes_of_pause {span : Span} {cancelled : Option Bool} {session next : Session σ}
    (h : pause span session = (cancelled, next)) :
    ∃ now, session.now ≤ now ∧ next = { session with now } := by
  rcases pause_passes span session with ⟨now, hafter, hnow⟩
  rw [h] at hafter
  exact ⟨now, hnow, hafter⟩

theorem onward_wait {α : Type} (service : Service σ) (tree : FileTree) (limit : Nat)
    (session : Session σ) :
    session.Onward (((host service tree limit).wait : Action σ α) session).2 := by
  rcases wait_passes service tree limit session with ⟨now, hstuck, hnow, _⟩
  rw [hstuck]
  exact .passes hnow

/-- A call is on the account if it is a poll, and not if it is another one. -/
theorem account_ask (service : Service σ) (call : Call) (session : Session σ) :
    (ask service call session).2.account = (session.record (.asked call)).account := by
  rcases ask_cases service call session with ⟨now, _, _, hasked | hasked⟩
  · rw [hasked]
    rfl
  · rw [hasked]
    rfl

end Session

namespace Action

variable {σ α β : Type}

/-- An action with which a session goes on, and nothing is added to the account. -/
def Discreet (action : Action σ α) : Prop :=
  ∀ session, session.Onward (action session).2 ∧ (action session).2.account = session.account

theorem Discreet.of_run {action : Action σ α} (h : action.Discreet) {session next : Session σ}
    {result : Option α} (hrun : action session = (result, next)) :
    session.Onward next ∧ next.account = session.account := by
  have hboth := h session
  rwa [hrun] at hboth

theorem discreet_pure (a : α) : Discreet (pure a : Action σ α) :=
  fun session => ⟨.refl session, rfl⟩

theorem discreet_bind {action : Action σ α} {next : α → Action σ β} (h : action.Discreet)
    (hnext : ∀ a, (next a).Discreet) : (action >>= next).Discreet := by
  intro session
  have hmiddle := h session
  rcases hfirst : action session with ⟨_ | a, middle⟩
  · rw [hfirst] at hmiddle
    rw [bind_of_none hfirst]
    exact hmiddle
  · rw [hfirst] at hmiddle
    rw [bind_of_some hfirst]
    have hrest := hnext a middle
    exact ⟨hmiddle.1.trans hrest.1, hrest.2.trans hmiddle.2⟩

theorem discreet_ask (service : Service σ) {call : Call}
    (h : (Event.asked call).isOwn = false) : Discreet (Session.ask service call) := by
  refine fun session => ⟨Session.onward_ask service call session, ?_⟩
  rw [Session.account_ask]
  simp only [Session.account, Session.record, List.filter_append, List.filter_cons, h,
    Bool.false_eq_true, if_false, List.filter_nil, List.append_nil]

theorem discreet_wait (service : Service σ) (tree : FileTree) (limit : Nat) :
    Discreet ((Session.host service tree limit).wait : Action σ α) := by
  refine fun session => ⟨Session.onward_wait service tree limit session, ?_⟩
  rcases Session.wait_passes (α := α) service tree limit session with ⟨now, hstuck, _⟩
  rw [hstuck]
  rfl

end Action

namespace LogReader

variable {σ : Type} (service : Service σ) (tree : FileTree) (limit : Nat)

theorem discreet_listAll (root : ObjectUri) (rounds : Nat) (token : Option String)
    (found : List ObjectSummary) :
    (listAll (Session.host service tree limit) root rounds token found).Discreet := by
  induction rounds generalizing token found with
  | zero => exact Action.discreet_wait service tree limit
  | succ rounds ih =>
      refine Action.discreet_bind (Action.discreet_ask service rfl) fun answer => ?_
      cases answer with
      | error error => exact Action.discreet_pure _
      | ok page =>
          simp only
          cases page.nextToken with
          | none => exact Action.discreet_pure _
          | some token => exact ih (some token) _

theorem discreet_fetch (root : ObjectUri) (flush : Bool) (cursors : Table String LogCursor)
    (object : ObjectSummary) (source : LogSource) :
    (fetch (Session.host service tree limit) root flush cursors object source).Discreet := by
  refine Action.discreet_bind (Action.discreet_ask service rfl) fun answer => ?_
  cases answer with
  | error error => exact Action.discreet_pure _
  | ok body =>
      simp only
      cases LogCursor.decode? object.key body with
      | none => exact Action.discreet_pure _
      | some text => exact Action.discreet_pure _

theorem discreet_readObject (root : ObjectUri) (flush : Bool) (cursors : Table String LogCursor)
    (object : ObjectSummary) :
    (readObject (Session.host service tree limit) root flush cursors object).Discreet := by
  unfold readObject
  cases LogSource.ofKey? root.listing object.key with
  | none => exact Action.discreet_pure _
  | some source =>
      simp only
      cases cursors.get? object.key with
      | none => exact discreet_fetch service tree limit root flush cursors object source
      | some cursor =>
          simp only
          by_cases hcurrent : cursor.isCurrent object = true
          · rw [if_pos hcurrent]
            by_cases hflush : flush = true
            · rw [if_pos hflush]
              exact Action.discreet_pure _
            · rw [if_neg hflush]
              exact Action.discreet_pure _
          · rw [if_neg hcurrent]
            exact discreet_fetch service tree limit root flush cursors object source

theorem discreet_readObjects (root : ObjectUri) (flush : Bool) (cursors : Table String LogCursor)
    (objects : List ObjectSummary) :
    (readObjects (Session.host service tree limit) root flush cursors objects).Discreet := by
  induction objects generalizing cursors with
  | nil => exact Action.discreet_pure _
  | cons object rest ih =>
      refine Action.discreet_bind
        (discreet_readObject service tree limit root flush cursors object) fun read => ?_
      exact Action.discreet_bind (ih read.2) fun more => Action.discreet_pure _

/-- Reading logs is discreet, wherever they are and however far they were read. -/
theorem discreet_read (flush : Bool) (reader : LogReader) :
    (read (Session.host service tree limit) flush reader).Discreet := by
  unfold read
  cases reader.root with
  | none => exact Action.discreet_pure _
  | some root =>
      refine Action.discreet_bind
        (discreet_listAll service tree limit root limit none []) fun listed => ?_
      cases listed with
      | error error => exact Action.discreet_pure _
      | ok objects =>
          exact Action.discreet_bind (discreet_readObjects service tree limit root flush
            reader.cursors _) fun read => Action.discreet_pure _

end LogReader

end BatchRun
