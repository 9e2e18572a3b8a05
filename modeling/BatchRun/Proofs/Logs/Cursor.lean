import BatchRun.Logs.Cursor
import BatchRun.Proofs.Text.Lines
import BatchRun.Proofs.Text.Lossy

/-!
# Lines of a Growing Log

What a reading of a log object has of the lines of a later one.

The finished lines of a log are the first lines of every later reading, so a
count of lines is all that a cursor needs in order to find what is new. A last
line that is not finished is the one thing that is not counted before its time.

## Main definitions

* `LogCursor.messages`: All lines of a text.
* `LogCursor.heldBack`: What is held back of a text behind a count of lines.

## Theorems

* `LogCursor.messages_eq`: The finished lines, then an unfinished one.
* `LogCursor.finished_append_cons`: A line feed finishes the lines before it.
* `LogCursor.finished_mono`, `LogCursor.finished_lossyChars_mono`: What is
  finished stays as it is.
* `LogCursor.advance_held`, `LogCursor.advance_flushed`: What a reading gives,
  and the cursor behind it.
-/

namespace BatchRun

namespace LogCursor

/-- All lines of a text, with one that has no line feed. -/
def messages (text : List Char) : List String :=
  (Text.lines text).map String.ofList

/-- What is held back of a text when so many of its lines count as delivered:
    an unfinished line, unless more than the finished ones were. -/
def heldBack (emitted : Nat) (text : List Char) : Option String :=
  if (unfinished text).isEmpty || emitted != (finished text).length then none
  else some (unfinished text)

theorem finished_of_not_mem {text : List Char} (h : '\n' ∉ text) : finished text = [] := by
  cases hcut : Text.cutAtLast '\n' text with
  | none => simp only [finished, splitTail, hcut, Text.lines_of_not_mem List.not_mem_nil,
      List.isEmpty_nil, if_true, List.map_nil]
  | some cut =>
      rw [(Text.eq_of_cutAtLast hcut).1] at h
      exact absurd (List.mem_append_right _ List.mem_cons_self) h

theorem unfinished_of_not_mem {text : List Char} (h : '\n' ∉ text) :
    unfinished text = String.ofList text := by
  cases hcut : Text.cutAtLast '\n' text with
  | none => simp only [unfinished, splitTail, hcut]
  | some cut =>
      rw [(Text.eq_of_cutAtLast hcut).1] at h
      exact absurd (List.mem_append_right _ List.mem_cons_self) h

/-- The cut of a text whose last line feed is known. -/
theorem splitTail_append_cons {after : List Char} (h : '\n' ∉ after) (before : List Char) :
    splitTail (before ++ '\n' :: after) = (before ++ ['\n'], after) := by
  simp only [splitTail, Text.cutAtLast_append_cons h]

/-- A line feed finishes the lines before it, whatever stands behind. -/
theorem finished_append_cons (before after : List Char) :
    finished (before ++ '\n' :: after) =
      ((Text.splitOn '\n' before).map Text.withoutReturn).map String.ofList ++ finished after := by
  cases hcut : Text.cutAtLast '\n' after with
  | none =>
      have hmem := Text.cutAtLast_eq_none hcut
      rw [finished_of_not_mem hmem, List.append_nil]
      simp only [finished, splitTail_append_cons hmem, Text.lines_append_cons, Text.lines_nil,
        List.append_nil]
  | some cut =>
      rcases Text.eq_of_cutAtLast hcut with ⟨hafter, hmem⟩
      -- The last line feed of the whole text is the last one of its end.
      have hall : before ++ '\n' :: after = (before ++ '\n' :: cut.1) ++ '\n' :: cut.2 := by
        rw [hafter, List.append_assoc, List.cons_append]
      rw [hall]
      simp only [finished, splitTail_append_cons hmem, hafter, Text.lines_append_cons,
        Text.lines_nil, List.append_nil, Text.splitOn_append_cons, List.map_append]

/-- The lines of a text are its finished ones and what would be held back. -/
theorem messages_eq (text : List Char) :
    messages text = finished text ++ (heldBack (finished text).length text).toList := by
  cases hcut : Text.cutAtLast '\n' text with
  | none =>
      have hmem := Text.cutAtLast_eq_none hcut
      rw [messages, heldBack, finished_of_not_mem hmem, unfinished_of_not_mem hmem,
        Text.lines_of_not_mem hmem]
      cases text with
      | nil => rfl
      | cons c rest => simp
  | some cut =>
      rcases Text.eq_of_cutAtLast hcut with ⟨htext, hmem⟩
      have hopen : unfinished text = String.ofList cut.2 := by
        rw [unfinished, htext, splitTail_append_cons hmem]
      have hlines : Text.lines (cut.1 ++ ['\n']) =
          (Text.splitOn '\n' cut.1).map Text.withoutReturn := by
        rw [Text.lines_append_cons, Text.lines_nil, List.append_nil]
      have hfinished : finished text =
          ((Text.splitOn '\n' cut.1).map Text.withoutReturn).map String.ofList := by
        rw [finished, htext, splitTail_append_cons hmem, hlines]
      rw [messages, heldBack, hfinished, hopen, htext, Text.lines_append_cons, List.map_append,
        Text.lines_of_not_mem hmem]
      -- What is behind the last line feed is one line, or nothing.
      cases cut.2 with
      | nil => rfl
      | cons c rest => simp

/-- The finished lines of a text are the first lines of every text that agrees
    with it up to an end without a line feed. -/
theorem finished_mono {text sure loose later : List Char} (htext : text = sure ++ loose)
    (hloose : '\n' ∉ loose) (hlater : sure <+: later) : finished text <+: finished later := by
  cases hcut : Text.cutAtLast '\n' text with
  | none =>
      rw [finished_of_not_mem (Text.cutAtLast_eq_none hcut)]
      exact List.nil_prefix
  | some cut =>
      rcases Text.eq_of_cutAtLast hcut with ⟨heq, hmem⟩
      -- The last line feed is not in the loose end, so the later text has it too.
      have hsure : cut.1 ++ ['\n'] <+: sure := by
        rw [htext, List.append_eq_append_iff] at heq
        rcases heq with ⟨middle, hfirst, hsecond⟩ | ⟨middle, hfirst, hsecond⟩
        · rw [hsecond] at hloose
          exact absurd (List.mem_append_right _ List.mem_cons_self) hloose
        · cases middle with
          | nil =>
              rw [List.nil_append] at hsecond
              rw [← hsecond] at hloose
              exact absurd List.mem_cons_self hloose
          | cons c rest =>
              rw [List.cons_append, List.cons.injEq] at hsecond
              rw [hfirst, ← hsecond.1]
              exact ⟨rest, by rw [List.append_assoc, List.singleton_append]⟩
      rcases hsure.trans hlater with ⟨after, hafter⟩
      rw [← hafter, heq, List.append_assoc, List.singleton_append, finished_append_cons,
        finished_append_cons, finished_of_not_mem hmem, List.append_nil]
      exact List.prefix_append _ _

/-- What is finished in the text of some bytes stays as it is when more bytes
    come, even if the bytes end in the middle of a character. -/
theorem finished_lossyChars_mono {bytes later : Bytes} (h : bytes <+: later) :
    finished (Utf8.lossyChars bytes) <+: finished (Utf8.lossyChars later) := by
  rcases h with ⟨more, rfl⟩
  rcases Utf8.lossyChars_append bytes with ⟨sure, loose, hloose, htext, hmore⟩
  exact finished_mono htext hloose (hmore more)

/-- A reading while more can come: what is behind the count, and a cursor that
    holds back the rest. -/
theorem advance_held (cursor : LogCursor) (object : ObjectSummary) (text : List Char) :
    cursor.advance object text false =
      ((finished text).drop cursor.emitted,
        { size := object.size, etag := object.etag
          emitted := max cursor.emitted (finished text).length
          tail := heldBack (max cursor.emitted (finished text).length) text }) := by
  unfold advance heldBack
  by_cases h : ((unfinished text).isEmpty ||
      max cursor.emitted (finished text).length != (finished text).length) = true
  · simp only [h, if_true]
  · simp only [h, Bool.false_eq_true, if_false]

/-- A reading when nothing more can come: what would be held back is delivered
    as well. -/
theorem advance_flushed (cursor : LogCursor) (object : ObjectSummary) (text : List Char) :
    (cursor.advance object text true).1 = (finished text).drop cursor.emitted ++
        (heldBack (max cursor.emitted (finished text).length) text).toList ∧
      (cursor.advance object text true).2.size = object.size ∧
      (cursor.advance object text true).2.etag = object.etag ∧
      (cursor.advance object text true).2.tail = none := by
  unfold advance heldBack
  by_cases h : ((unfinished text).isEmpty ||
      max cursor.emitted (finished text).length != (finished text).length) = true
  · simp only [h, if_true, Option.toList_none, List.append_nil, and_self]
  · simp only [h, Bool.false_eq_true, if_false, if_true, Option.toList_some, and_self]

end LogCursor

end BatchRun
