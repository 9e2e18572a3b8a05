/-!
# Line Buffers

Lines that wait to be taken.

What a run puts out need not be shown at once. A buffer keeps the lines in their
order until somebody takes all of them, and is empty afterwards.

## Main definitions

* `LineBuffer`: Lines that wait.
* `LineBuffer.emit`, `LineBuffer.drain`: Adds a line, takes all of them.
-/

namespace BatchRun

/-- Lines that wait to be taken, the oldest first. -/
structure LineBuffer where
  lines : List String
  deriving DecidableEq, Repr

namespace LineBuffer

/-- A buffer without lines. -/
def empty : LineBuffer := ⟨[]⟩

/-- A buffer with one more line. -/
def emit (buffer : LineBuffer) (line : String) : LineBuffer :=
  ⟨buffer.lines ++ [line]⟩

/-- All lines of a buffer, and what is left of it. -/
def drain (buffer : LineBuffer) : List String × LineBuffer :=
  (buffer.lines, empty)

/-- Nothing that was emitted is lost. -/
theorem fst_drain_emit (buffer : LineBuffer) (line : String) :
    (buffer.emit line).drain.1 = buffer.drain.1 ++ [line] := rfl

end LineBuffer

end BatchRun
