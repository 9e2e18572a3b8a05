/-!
# Splitting at a Separator

Paths, queries, arguments and log texts are read by cutting them at a
separator.

A cut keeps everything: there is one more piece than there are separators, and
pieces may be empty. That is what makes a join its inverse. Where empty pieces
mean nothing, as between two spaces of an argument list, the caller drops them.

## Main definitions

* `splitWhere`, `splitOn`: The pieces of a list between its separators.
* `joinWith`: The pieces written again with a separator between them.
* `cutAtFirst`, `cutAtLast`: What stands before and after one occurrence.
* `trimWhere`: A list without the leading and trailing items that satisfy a
  test.
* `lines`: The lines of a text.

## Theorems

* `splitWhere_ne_nil`: There is always a piece.
* `joinWith_splitOn`: Joining the pieces gives the list back.
* `eq_of_cutAtFirst`, `eq_of_afterStart`, `eq_of_cutAtSequence`: What a cut
  keeps.
-/

namespace BatchRun

namespace Text

/-- The pieces of a list between the items that satisfy a test. -/
def splitWhere {α : Type} (separates : α → Bool) : List α → List (List α)
  | [] => [[]]
  | x :: rest =>
    if separates x then [] :: splitWhere separates rest
    else match splitWhere separates rest with
      | [] => [[x]]
      | piece :: pieces => (x :: piece) :: pieces

/-- The pieces of a list between the occurrences of a separator. -/
def splitOn {α : Type} [DecidableEq α] (separator : α) (items : List α) : List (List α) :=
  splitWhere (fun x => decide (x = separator)) items

/-- The pieces written one after the other with a separator between them. -/
def joinWith {α : Type} (separator : List α) : List (List α) → List α
  | [] => []
  | [piece] => piece
  | piece :: next :: pieces => piece ++ separator ++ joinWith separator (next :: pieces)

/-- What stands before and after the first occurrence of a separator. -/
def cutAtFirst {α : Type} [DecidableEq α] (separator : α) : List α → Option (List α × List α)
  | [] => none
  | x :: rest =>
    if x = separator then some ([], rest)
    else (cutAtFirst separator rest).map fun (before, after) => (x :: before, after)

/-- What stands before and after the last occurrence of a separator. -/
def cutAtLast {α : Type} [DecidableEq α] (separator : α) (items : List α) :
    Option (List α × List α) :=
  (cutAtFirst separator items.reverse).map fun (after, before) =>
    (before.reverse, after.reverse)

/-- The items of a list between the leading and the trailing ones that
    satisfy a test. -/
def trimWhere {α : Type} (drop : α → Bool) (items : List α) : List α :=
  ((items.dropWhile drop).reverse.dropWhile drop).reverse

/-- What is left of a list behind a given start. -/
def afterStart {α : Type} [DecidableEq α] : List α → List α → Option (List α)
  | [], items => some items
  | _ :: _, [] => none
  | x :: start, y :: items => if x = y then afterStart start items else none

/-- What is left of a list before a given ending. -/
def beforeEnding {α : Type} [DecidableEq α] (ending items : List α) : Option (List α) :=
  (afterStart ending.reverse items.reverse).map List.reverse

/-- What stands before and after the first place where a sequence occurs. -/
def cutAtSequence {α : Type} [DecidableEq α] (sequence : List α) :
    List α → Option (List α × List α)
  | [] => if sequence.isEmpty then some ([], []) else none
  | x :: rest =>
    match afterStart sequence (x :: rest) with
    | some after => some ([], after)
    | none => (cutAtSequence sequence rest).map fun (before, after) => (x :: before, after)

/-- Whether a list stands somewhere inside another. -/
def occursIn {α : Type} [DecidableEq α] (part : List α) : List α → Bool
  | [] => part.isEmpty
  | x :: rest => (afterStart part (x :: rest)).isSome || occursIn part rest

/-- A line as it is shown: without the carriage return that may precede the
    line feed it ended with. -/
def withoutReturn (line : List Char) : List Char :=
  (beforeEnding ['\r'] line).getD line

/-- The lines of a text. Each line feed ends a line, and one carriage return
    before it goes with it. What follows the last line feed is a line if it is
    anything at all, and keeps its characters. -/
def lines (text : List Char) : List (List Char) :=
  match (splitOn '\n' text).reverse with
  | [] => []
  | last :: ended =>
    ended.reverse.map withoutReturn ++ (if last.isEmpty then [] else [last])

theorem splitWhere_ne_nil {α : Type} (separates : α → Bool) (items : List α) :
    splitWhere separates items ≠ [] := by
  cases items with
  | nil => simp [splitWhere]
  | cons x rest =>
    simp only [splitWhere]
    split
    · simp
    · split <;> simp

theorem joinWith_cons_of_ne_nil {α : Type} (separator piece : List α) {pieces : List (List α)}
    (h : pieces ≠ []) :
    joinWith separator (piece :: pieces) = piece ++ separator ++ joinWith separator pieces := by
  cases pieces with
  | nil => exact absurd rfl h
  | cons next pieces => rfl

/-- Joining the pieces gives the list back. -/
theorem joinWith_splitOn {α : Type} [DecidableEq α] (separator : α) (items : List α) :
    joinWith [separator] (splitOn separator items) = items := by
  unfold splitOn
  induction items with
  | nil => rfl
  | cons x rest ih =>
    simp only [splitWhere]
    split
    · next h =>
      rw [joinWith_cons_of_ne_nil _ _ (splitWhere_ne_nil _ _), ih, of_decide_eq_true h]
      rfl
    · next h =>
      cases hs : splitWhere (fun x => decide (x = separator)) rest with
      | nil => exact absurd hs (splitWhere_ne_nil _ _)
      | cons piece pieces =>
        rw [hs] at ih
        cases pieces with
        | nil => simpa [joinWith] using ih
        | cons next pieces => simpa [joinWith] using ih

/-- A cut keeps everything but the separator. -/
theorem eq_of_cutAtFirst {α : Type} [DecidableEq α] {separator : α} {items before after : List α}
    (h : cutAtFirst separator items = some (before, after)) :
    items = before ++ separator :: after := by
  induction items generalizing before with
  | nil => simp [cutAtFirst] at h
  | cons x rest ih =>
    simp only [cutAtFirst] at h
    split at h
    · next hx =>
      simp only [Option.some.injEq, Prod.mk.injEq] at h
      rw [← h.1, ← h.2, hx]
      rfl
    · cases hc : cutAtFirst separator rest with
      | none => simp [hc] at h
      | some cut =>
        simp only [hc, Option.map_some, Option.some.injEq, Prod.mk.injEq] at h
        rw [ih (show _ = some (cut.1, after) by rw [hc, ← h.2]), ← h.1]
        rfl

/-- A list is its start and what is left behind it. -/
theorem eq_of_afterStart {α : Type} [DecidableEq α] {start items rest : List α}
    (h : afterStart start items = some rest) : items = start ++ rest := by
  induction start generalizing items with
  | nil => simpa [afterStart] using h
  | cons x start ih =>
    cases items with
    | nil => simp [afterStart] at h
    | cons y items =>
      simp only [afterStart] at h
      split at h
      · next hx => rw [hx, ih h]; rfl
      · simp at h

theorem afterStart_append {α : Type} [DecidableEq α] (start rest : List α) :
    afterStart start (start ++ rest) = some rest := by
  induction start with
  | nil => rfl
  | cons x start ih => rw [List.cons_append, afterStart, if_pos rfl, ih]

/-- A cut at a sequence keeps everything else. -/
theorem eq_of_cutAtSequence {α : Type} [DecidableEq α] {sequence items before after : List α}
    (h : cutAtSequence sequence items = some (before, after)) :
    items = before ++ sequence ++ after := by
  induction items generalizing before with
  | nil =>
    simp only [cutAtSequence] at h
    split at h
    · next hs =>
      simp only [Option.some.injEq, Prod.mk.injEq] at h
      simp_all
    · simp at h
  | cons x rest ih =>
    simp only [cutAtSequence] at h
    cases ha : afterStart sequence (x :: rest) with
    | some found =>
      simp only [ha, Option.some.injEq, Prod.mk.injEq] at h
      rw [eq_of_afterStart ha, ← h.1, ← h.2]
      rfl
    | none =>
      simp only [ha] at h
      cases hc : cutAtSequence sequence rest with
      | none => simp [hc] at h
      | some cut =>
        simp only [hc, Option.map_some, Option.some.injEq, Prod.mk.injEq] at h
        rw [ih (show _ = some (cut.1, after) by rw [hc, ← h.2]), ← h.1]
        rfl

end Text

end BatchRun
