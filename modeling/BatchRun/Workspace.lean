import BatchRun.ObjectUri

/-!
# Workspaces

Where the files of one run are kept.

A workspace lies below the configured root, in a directory for the pipeline
and one for the run, and is deleted when the run is over. Logs are written next
to the pipelines, so they outlive it.

## Main definitions

* `Workspace`: The addresses of one run's files.
* `Workspace.allocate`: The workspace of a run.
-/

namespace BatchRun

/-- The addresses of one run's files. Everything below `root` belongs to the
    run alone. -/
structure Workspace where
  root : ObjectUri
  entrypoint : ObjectUri
  context : ObjectUri
  logs : ObjectUri
  deriving DecidableEq, Repr

/-- The workspace of a run. -/
def Workspace.allocate (base : ObjectUri) (pipeline runId file : String) : Workspace :=
  let root := (base.join pipeline).join runId
  { root
    entrypoint := root.join file
    context := root.join "context.zip"
    logs := base.join "logs" }

end BatchRun
