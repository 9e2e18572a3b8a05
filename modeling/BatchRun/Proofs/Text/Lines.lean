import BatchRun.Proofs.Text.Pieces

/-!
# Lines of a Growing Text

What stays of the lines of a text when the text grows.

A line feed separates what stands before it from what comes after, so the lines
up to the last line feed of a text are its lines for good, whatever is written
behind them. What follows that line feed is no line yet, or one line that may
still change.

## Theorems

* `splitOn_append_cons`: A separator splits on its own.
* `splitOn_of_not_mem`: Without a separator there is one piece.
* `splitOn_joinWith`: Joined pieces are cut apart again.
* `lines_append_cons`: A line feed ends the lines before it.
* `lines_of_not_mem`: A text without a line feed is its only line.
* `cutAtFirst_eq_none`, `not_mem_of_cutAtFirst`: Where the first separator is.
* `cutAtLast_eq_none`, `eq_of_cutAtLast`, `cutAtLast_append_cons`: Where the
  last separator is.
-/

namespace BatchRun

namespace Text

variable {α : Type} [DecidableEq α]

/-- A separator splits on its own: the pieces before it do not depend on what
    stands behind. -/
theorem splitOn_append_cons (separator : α) (before after : List α) :
    splitOn separator (before ++ separator :: after) =
      splitOn separator before ++ splitOn separator after := by
  refine splitWhere_append_cons ?_ before after
  exact decide_eq_true rfl

theorem splitOn_of_not_mem {separator : α} {items : List α} (h : separator ∉ items) :
    splitOn separator items = [items] := by
  refine splitWhere_of_forall fun x hx => decide_eq_false ?_
  rintro rfl
  exact h hx

/-- Pieces without the separator that were joined are cut apart again. -/
theorem splitOn_joinWith {separator : α} {pieces : List (List α)} (hne : pieces ≠ [])
    (h : ∀ piece ∈ pieces, separator ∉ piece) :
    splitOn separator (joinWith [separator] pieces) = pieces := by
  refine splitWhere_joinWith ?_ hne fun piece hpiece x hx => decide_eq_false ?_
  · exact decide_eq_true rfl
  · rintro rfl
    exact h piece hpiece hx

/-- A line feed ends the lines before it, which do not depend on what is
    written behind. -/
theorem lines_append_cons (before after : List Char) :
    lines (before ++ '\n' :: after) =
      (splitOn '\n' before).map withoutReturn ++ lines after := by
  unfold lines
  rw [splitOn_append_cons, List.reverse_append]
  cases h : (splitOn '\n' after).reverse with
  | nil => exact absurd (List.reverse_eq_nil_iff.mp h) (splitWhere_ne_nil _ _)
  | cons last ended =>
      simp only [List.cons_append, List.reverse_append, List.reverse_reverse, List.map_append,
        List.append_assoc]

/-- A text without a line feed is its only line, if it is anything at all. -/
theorem lines_of_not_mem {text : List Char} (h : '\n' ∉ text) :
    lines text = if text.isEmpty then [] else [text] := by
  simp only [lines, splitOn_of_not_mem h, List.reverse_singleton, List.reverse_nil, List.map_nil,
    List.nil_append]

theorem lines_nil : lines [] = [] := by
  rw [lines_of_not_mem List.not_mem_nil, List.isEmpty_nil, if_pos rfl]

theorem cutAtFirst_eq_none {separator : α} {items : List α}
    (h : cutAtFirst separator items = none) : separator ∉ items := by
  induction items with
  | nil => exact List.not_mem_nil
  | cons x rest ih =>
      simp only [cutAtFirst] at h
      by_cases hx : x = separator
      · rw [if_pos hx] at h
        exact absurd h (by simp only [reduceCtorEq, not_false_eq_true])
      · rw [if_neg hx, Option.map_eq_none_iff] at h
        exact List.not_mem_cons_of_ne_of_not_mem (Ne.symm hx) (ih h)

/-- What stands before the first separator has none. -/
theorem not_mem_of_cutAtFirst {separator : α} {items before after : List α}
    (h : cutAtFirst separator items = some (before, after)) : separator ∉ before := by
  induction items generalizing before with
  | nil => exact absurd h (by simp only [cutAtFirst, reduceCtorEq, not_false_eq_true])
  | cons x rest ih =>
      simp only [cutAtFirst] at h
      by_cases hx : x = separator
      · rw [if_pos hx] at h
        simp only [Option.some.injEq, Prod.mk.injEq] at h
        rw [← h.1]
        exact List.not_mem_nil
      · rw [if_neg hx, Option.map_eq_some_iff] at h
        rcases h with ⟨⟨inner, rest'⟩, hcut, heq⟩
        simp only [Prod.mk.injEq] at heq
        rw [← heq.1]
        rw [heq.2] at hcut
        exact List.not_mem_cons_of_ne_of_not_mem (Ne.symm hx) (ih hcut)

theorem cutAtFirst_append_cons {separator : α} {before : List α} (h : separator ∉ before)
    (after : List α) :
    cutAtFirst separator (before ++ separator :: after) = some (before, after) := by
  induction before with
  | nil => simp only [List.nil_append, cutAtFirst, if_true]
  | cons x rest ih =>
      rw [List.mem_cons, not_or] at h
      simp only [List.cons_append, cutAtFirst, if_neg (Ne.symm h.1), ih h.2, Option.map_some]

theorem cutAtLast_eq_none {separator : α} {items : List α}
    (h : cutAtLast separator items = none) : separator ∉ items := by
  rw [cutAtLast, Option.map_eq_none_iff] at h
  rw [← List.mem_reverse]
  exact cutAtFirst_eq_none h

/-- A cut at the last separator keeps everything but that one, and none stands
    behind it. -/
theorem eq_of_cutAtLast {separator : α} {items before after : List α}
    (h : cutAtLast separator items = some (before, after)) :
    items = before ++ separator :: after ∧ separator ∉ after := by
  rw [cutAtLast, Option.map_eq_some_iff] at h
  rcases h with ⟨⟨behind, ahead⟩, hcut, heq⟩
  simp only [Prod.mk.injEq] at heq
  rw [← heq.1, ← heq.2]
  refine ⟨?_, fun hmem => not_mem_of_cutAtFirst hcut (List.mem_reverse.mp hmem)⟩
  calc items = items.reverse.reverse := (List.reverse_reverse items).symm
    _ = (behind ++ separator :: ahead).reverse := by rw [eq_of_cutAtFirst hcut]
    _ = ahead.reverse ++ separator :: behind.reverse := by
        rw [List.reverse_append, List.reverse_cons, List.append_assoc, List.singleton_append]

theorem cutAtLast_append_cons {separator : α} {after : List α} (h : separator ∉ after)
    (before : List α) :
    cutAtLast separator (before ++ separator :: after) = some (before, after) := by
  rw [← List.mem_reverse] at h
  rw [cutAtLast, List.reverse_append, List.reverse_cons, List.append_assoc, List.singleton_append,
    cutAtFirst_append_cons h, Option.map_some]
  simp only [List.reverse_reverse]

end Text

end BatchRun
