import BatchRun.CommandLine.Plan

/-!
# Environments

The variables that a command can depend on.

A command looks at variables of fixed names, and at those that a placeholder
names. A placeholder stands in an argument or in a variable of a fixed name,
since what is put in its place is not looked at again. So the variables can be
fetched before anything is read, with names that no placeholder has among them.

## Main definitions

* `Environment.fixedNames`: The variables that are always looked at.
* `Environment.namesIn`: The names that placeholders in a text can have.
-/

namespace BatchRun

namespace Environment

/-- The variables that are always looked at. -/
def fixedNames : List String :=
  ["AWS_ACCESS_KEY_ID", "AWS_SECRET_ACCESS_KEY", "AWS_SESSION_TOKEN", "AWS_REGION",
    "SLUICE_APPLICATION_ID", "SLUICE_EXECUTION_ROLE", "SLUICE_WORKSPACE",
    "SLUICE_POLL_INTERVAL_MS", "SLUICE_POLL_MAX_INTERVAL_MS", "SLUICE_CLEANUP_TIMEOUT",
    "SLUICE_CANCEL_TIMEOUT", "SLUICE_CONTROL_PLANE_ENDPOINT", "SLUICE_OBJECT_STORE_ENDPOINT"]

/-- What stands behind an opening brace in a text, up to a closing one. -/
def namesIn : List Char → List String
  | [] => []
  | '\x7b' :: rest => String.ofList (rest.takeWhile (· ≠ '\x7d')) :: namesIn rest
  | _ :: rest => namesIn rest

end Environment

end BatchRun
