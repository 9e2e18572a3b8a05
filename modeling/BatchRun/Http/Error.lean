/-!
# Service Errors

What can go wrong when a service is asked.

A request may be refused before it is sent, get no answer, get an answer that
says no, or one that makes no sense. Of the answers that say no, those that ask
for patience and those that miss something are told apart, because the caller
acts on them; the status and the code of the answer decide.

## Main definitions

* `ServiceError`: What went wrong.
* `ServiceError.ofResponse`: The error that a status and a code stand for.
* `ServiceError.message`, `ServiceError.causes`: Its text, and what lies
  behind it.
-/

namespace BatchRun

/-- What went wrong when a service was asked. -/
inductive ServiceError where
  /-- No answer came, or it broke off. -/
  | unanswered (causes : List String)
  /-- The service said no. -/
  | refused (status : Nat) (code message : String)
  /-- The service asked for fewer requests. -/
  | throttled (message : String)
  /-- The answer made no sense. -/
  | unreadable (message : String)
  /-- What was asked for does not exist. -/
  | notFound (message : String)
  /-- The request could not be made. -/
  | invalidRequest (message : String)
  deriving DecidableEq, Repr

namespace ServiceError

/-- The codes by which services ask for fewer requests. -/
def throttlingCodes : List String :=
  ["ThrottlingException", "TooManyRequestsException", "RequestLimitExceeded", "SlowDown"]

/-- The error that the status and the code of an answer stand for. -/
def ofResponse (status : Nat) (code message : String) : ServiceError :=
  if status = 429 ∨ code ∈ throttlingCodes then .throttled message
  else if status = 404 then .notFound message
  else .refused status code message

/-- Whether the caller should wait and ask again. -/
def isThrottling : ServiceError → Bool
  | throttled _ => true
  | _ => false

/-- Whether something is missing that was asked for. -/
def isNotFound : ServiceError → Bool
  | notFound _ => true
  | refused status _ _ => status == 404
  | _ => false

/-- The text of an error. -/
def message : ServiceError → String
  | unanswered _ => "HTTP request failed"
  | refused status code text => s!"API error (status {status}, code {code}): {text}"
  | throttled text => s!"request throttled: {text}"
  | unreadable text => s!"Failed to parse response: {text}"
  | notFound text => s!"Resource not found: {text}"
  | invalidRequest text => s!"Invalid request: {text}"

/-- What lies behind an error, nearest first. -/
def causes : ServiceError → List String
  | unanswered causes => causes
  | _ => []

end ServiceError

end BatchRun
