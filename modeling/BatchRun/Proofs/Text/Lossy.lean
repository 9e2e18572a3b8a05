import BatchRun.Text.Utf8

/-!
# Lenient Reading of Growing Bytes

What stays of a text that was read leniently when more bytes come.

Bytes are read one at a time, so what has been said of the first ones is not
taken back. Only an unfinished character at the end is open: it is shown as
U+FFFD as long as nothing follows, and may become a character or other faults
when something does. It is never shown as a line feed, so every line feed of
the text is there to stay.

## Theorems

* `decodeFrom_append`: A walk over two texts is the walk over the first, then
  the second.
* `lossyChars_append`: All of a text but an open end is there to stay.
-/

namespace BatchRun

namespace Utf8

/-- A walk over two texts is the walk over the first, whatever the second, then
    the second from where the first one led. -/
theorem decodeFrom_append (progress : Progress) (bytes : Bytes) :
    ∃ pieces next, ∀ more : Bytes,
      decodeFrom progress (bytes ++ more) = pieces ++ decodeFrom next more := by
  induction bytes generalizing progress with
  | nil => exact ⟨[], progress, fun more => rfl⟩
  | cons b rest ih =>
      rcases ih (step progress b).2 with ⟨pieces, next, h⟩
      refine ⟨(step progress b).1 ++ pieces, next, fun more => ?_⟩
      rw [List.cons_append, decodeFrom, h more, List.append_assoc]

/-- What an unfinished character is shown as is no line feed. -/
theorem newline_not_mem_finish (progress : Progress) :
    '\n' ∉ (finish progress).map Piece.shown := by
  cases progress with
  | between => exact List.not_mem_nil
  | inside pending =>
      simp only [finish, List.map_cons, List.map_nil, Piece.shown, List.mem_singleton]
      decide

/-- All of a text that was read leniently is there to stay, except for an open
    end without a line feed. -/
theorem lossyChars_append (bytes : Bytes) :
    ∃ settled loose, '\n' ∉ loose ∧ lossyChars bytes = settled ++ loose ∧
      ∀ more : Bytes, settled <+: lossyChars (bytes ++ more) := by
  rcases decodeFrom_append .between bytes with ⟨pieces, next, h⟩
  refine ⟨pieces.map Piece.shown, (finish next).map Piece.shown,
    newline_not_mem_finish next, ?_, fun more => ?_⟩
  · have hall := h []
    rw [List.append_nil] at hall
    rw [lossyChars, decode, hall, decodeFrom, List.map_append]
  · rw [lossyChars, decode, h more, List.map_append]
    exact List.prefix_append _ _

end Utf8

end BatchRun
