import BatchRun.Rehearsal.Store

/-!
# Rehearsals

Both services of a run in memory, the control plane by a script.

The script says what the control plane answers to each request for attempts, and
what the run has written to the store by then. When it is used up, the control
plane fails. The other calls have one answer each.

## Main definitions

* `Scene`: One answer of the script.
* `MemoryPlane`: A control plane with a script.
* `Rehearsal`: A control plane and a store in memory.
* `Rehearsal.service`: Both of them as a service.
-/

namespace BatchRun

/-- One answer of the script: how long it takes, what is written to the store
    meanwhile, and the answer itself. -/
structure Scene where
  delay : Span
  placements : List Placement
  answer : Except ServiceError AttemptPage

/-- A control plane with a script. -/
structure MemoryPlane where
  script : List Scene
  submitDelay : Span
  submit : Submission → Except ServiceError RunHandle
  cancelDelay : Span
  cancel : Except ServiceError Unit
  applicationDelay : Span
  application : Except ServiceError Application
  /-- Which request for attempts the run is cancelled during, if any. -/
  cancelDuring : Option Nat
  /-- How often attempts were asked for. -/
  asked : Nat

/-- A control plane and a store in memory. -/
structure Rehearsal where
  store : MemoryStore
  plane : MemoryPlane

namespace Rehearsal

/-- The answer when the script is used up. -/
def scriptEnd : Scene :=
  ⟨Span.zero, [], .error (.ofResponse 500 "ScriptExhausted" "no more")⟩

/-- What is made of a request for attempts. -/
def attempts (handle : RunHandle) (token : Option String) (state : Rehearsal) :
    Reply Rehearsal (.attempts handle token) :=
  let asked := state.plane.asked + 1
  let scene := state.plane.script.head?.getD scriptEnd
  { delay := some scene.delay
    abandoned := state
    settled :=
      { store := scene.placements.foldl MemoryStore.place state.store
        plane := { state.plane with script := state.plane.script.tail, asked } }
    answer := scene.answer
    cancels := state.plane.cancelDuring == some asked }

/-- What is made of a call for the store. -/
def ofStore {call : Call} (state : Rehearsal) (reply : Reply MemoryStore call) :
    Reply Rehearsal call :=
  { delay := reply.delay
    abandoned := { state with store := reply.abandoned }
    settled := { state with store := reply.settled }
    answer := reply.answer
    cancels := reply.cancels }

/-- What is made of a call that changes nothing. -/
def still {call : Call} (state : Rehearsal) (delay : Span)
    (answer : Except ServiceError call.Answer) : Reply Rehearsal call :=
  { delay := some delay, abandoned := state, settled := state, answer, cancels := false }

/-- What is made of a call. -/
def reply : (call : Call) → (state : Rehearsal) → Reply Rehearsal call
  | .submit request, state => still state state.plane.submitDelay (state.plane.submit request)
  | .attempts handle token, state => attempts handle token state
  | .cancel _, state => still state state.plane.cancelDelay state.plane.cancel
  | .application _, state => still state state.plane.applicationDelay state.plane.application
  | .put uri content, state => ofStore state (MemoryStore.reply (.put uri content) state.store)
  | .list root token, state => ofStore state (MemoryStore.reply (.list root token) state.store)
  | .get uri, state => ofStore state (MemoryStore.reply (.get uri) state.store)
  | .delete uri, state => ofStore state (MemoryStore.reply (.delete uri) state.store)

/-- Both services in memory. -/
def service : Service Rehearsal := ⟨reply⟩

end Rehearsal

end BatchRun
