import BatchRun.Http.Error
import BatchRun.Run.Decoding
import BatchRun.Service.Object
import BatchRun.Submission

/-!
# Service Calls

Everything that is ever asked of a service.

A run uses two services, the store that holds its files and the control plane
that carries it out. What they can be asked is one type, so that a run is a
sequence of its values: an order among calls, or how often one is made, is a
statement about such a sequence.

## Main definitions

* `Call`: A question to a service.
* `Call.Answer`: What the answer to a call is.
* `Call.isStoreCall`: Which of the services a call is for.
-/

namespace BatchRun

/-- A question to the store or to the control plane. -/
inductive Call where
  /-- Store an object, in place of one that may be there. -/
  | put (uri : ObjectUri) (content : Bytes)
  /-- List the objects below an address, from a cursor on. -/
  | list (root : ObjectUri) (token : Option String)
  /-- Hand out an object. -/
  | get (uri : ObjectUri)
  /-- Delete an object, if it is there. -/
  | delete (uri : ObjectUri)
  /-- Start a run. -/
  | submit (request : Submission)
  /-- List the attempts at a run, from a cursor on. -/
  | attempts (handle : RunHandle) (token : Option String)
  /-- Cancel a run. -/
  | cancel (handle : RunHandle)
  /-- Describe an application. -/
  | application (applicationId : String)
  deriving DecidableEq, Repr

namespace Call

/-- What the answer to a call is, if it is answered. -/
abbrev Answer : Call → Type
  | put _ _ => Unit
  | list _ _ => ObjectPage
  | get _ => Bytes
  | delete _ => Unit
  | submit _ => RunHandle
  | attempts _ _ => AttemptPage
  | cancel _ => Unit
  | application _ => Application

/-- Whether a call is for the store. -/
def isStoreCall : Call → Bool
  | put _ _ => true
  | list _ _ => true
  | get _ => true
  | delete _ => true
  | _ => false

end Call

end BatchRun
