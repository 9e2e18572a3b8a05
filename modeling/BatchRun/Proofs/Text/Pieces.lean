import BatchRun.Text.Split

/-!
# Pieces Between Separators

Cutting a list at the items that satisfy a test, part by part.

An item that separates does so whatever stands around it. So a list is cut on its
two sides apart, a part without such an item is one piece, and pieces that were
written with a separator between them are what the cut gives back.

## Theorems

* `splitWhere_append_cons`: An item that separates splits on its own.
* `splitWhere_of_forall`: What has no such item is one piece.
* `splitWhere_joinWith`: Joined pieces are cut apart again.
* `mem_of_mem_joinWith`: What joined pieces hold.
* `flatten_splitWhere`: The pieces hold everything else.
* `toList_intercalate`: Joined texts are joined lists of characters.
-/

namespace BatchRun

namespace Text

variable {α : Type}

/-- An item that separates splits on its own: the pieces before it do not depend
    on what stands behind. -/
theorem splitWhere_append_cons {separates : α → Bool} {x : α} (hx : separates x = true)
    (before after : List α) :
    splitWhere separates (before ++ x :: after) =
      splitWhere separates before ++ splitWhere separates after := by
  induction before with
  | nil => simp only [List.nil_append, splitWhere, if_pos hx, List.singleton_append]
  | cons y rest ih =>
      simp only [List.cons_append, splitWhere, ih]
      by_cases hy : separates y = true
      · simp only [if_pos hy, List.cons_append]
      · simp only [if_neg hy]
        cases hpieces : splitWhere separates rest with
        | nil => exact absurd hpieces (splitWhere_ne_nil _ _)
        | cons piece pieces => rfl

/-- The pieces hold every item that does not separate. -/
theorem flatten_splitWhere (separates : α → Bool) (items : List α) :
    (splitWhere separates items).flatten = items.filter (!separates ·) := by
  induction items with
  | nil => rfl
  | cons x rest ih =>
      simp only [splitWhere]
      by_cases hx : separates x = true
      · rw [if_pos hx, List.flatten_cons, ih, List.nil_append,
          List.filter_cons_of_neg (by simp only [hx, Bool.not_true, Bool.false_eq_true,
            not_false_eq_true])]
      · rw [if_neg hx, List.filter_cons_of_pos (by simp only [hx, Bool.not_false]), ← ih]
        cases hpieces : splitWhere separates rest with
        | nil => exact absurd hpieces (splitWhere_ne_nil _ _)
        | cons piece pieces => simp only [List.flatten_cons, List.cons_append]

/-- What a piece holds is in the list and does not separate. -/
theorem mem_of_mem_splitWhere {separates : α → Bool} {x : α} {piece items : List α}
    (hpiece : piece ∈ splitWhere separates items) (hx : x ∈ piece) :
    x ∈ items ∧ separates x = false := by
  have hmem : x ∈ (splitWhere separates items).flatten := List.mem_flatten.mpr ⟨piece, hpiece, hx⟩
  rw [flatten_splitWhere, List.mem_filter, Bool.not_eq_true'] at hmem
  exact hmem

theorem splitWhere_of_forall {separates : α → Bool} {items : List α}
    (h : ∀ x ∈ items, separates x = false) : splitWhere separates items = [items] := by
  induction items with
  | nil => rfl
  | cons x rest ih =>
      simp only [splitWhere, ih fun y hy => h y (List.mem_cons_of_mem x hy), h x List.mem_cons_self,
        Bool.false_eq_true, if_false]

/-- Pieces that were joined are cut apart again, if none holds what separates
    them. -/
theorem splitWhere_joinWith {separates : α → Bool} {x : α} (hx : separates x = true)
    {pieces : List (List α)} (hne : pieces ≠ [])
    (hpieces : ∀ piece ∈ pieces, ∀ y ∈ piece, separates y = false) :
    splitWhere separates (joinWith [x] pieces) = pieces := by
  induction pieces with
  | nil => exact absurd rfl hne
  | cons piece rest ih =>
      rw [List.forall_mem_cons] at hpieces
      cases rest with
      | nil => exact splitWhere_of_forall hpieces.1
      | cons next rest =>
          rw [joinWith, List.append_assoc, List.singleton_append, splitWhere_append_cons hx,
            splitWhere_of_forall hpieces.1, ih (List.cons_ne_nil _ _) hpieces.2,
            List.singleton_append]

/-- Tests that agree on a list cut it alike. -/
theorem splitWhere_congr {separates other : α → Bool} {items : List α}
    (h : ∀ x ∈ items, separates x = other x) :
    splitWhere separates items = splitWhere other items := by
  induction items with
  | nil => rfl
  | cons x rest ih =>
      rw [List.forall_mem_cons] at h
      simp only [splitWhere, h.1, ih h.2]

/-- What a joined list holds is in one of its pieces, or separates them. -/
theorem mem_of_mem_joinWith {x y : α} {pieces : List (List α)} (h : y ∈ joinWith [x] pieces) :
    y = x ∨ ∃ piece ∈ pieces, y ∈ piece := by
  induction pieces with
  | nil => exact absurd h List.not_mem_nil
  | cons piece rest ih =>
      cases rest with
      | nil => exact .inr ⟨piece, List.mem_cons_self, h⟩
      | cons next rest =>
          rw [joinWith, List.append_assoc, List.mem_append, List.mem_append,
            List.mem_singleton] at h
          rcases h with hpiece | hsep | hrest
          · exact .inr ⟨piece, List.mem_cons_self, hpiece⟩
          · exact .inl hsep
          · rcases ih hrest with hsep | ⟨other, hmem, hother⟩
            · exact .inl hsep
            · exact .inr ⟨other, List.mem_cons_of_mem _ hmem, hother⟩

/-- Pieces with nothing between them. -/
theorem joinWith_nil (pieces : List (List α)) : joinWith [] pieces = pieces.flatten := by
  induction pieces with
  | nil => rfl
  | cons piece rest ih =>
      cases rest with
      | nil => rw [joinWith, List.flatten_cons, List.flatten_nil, List.append_nil]
      | cons next rest =>
          rw [joinWith, ih, List.append_nil]
          rfl

/-- Joined texts are joined lists of characters. -/
theorem toList_intercalate (separator : String) (pieces : List String) :
    (separator.intercalate pieces).toList =
      joinWith separator.toList (pieces.map String.toList) := by
  induction pieces with
  | nil => rfl
  | cons piece rest ih =>
      cases rest with
      | nil => rw [String.intercalate_singleton, List.map_singleton, joinWith]
      | cons next rest =>
          rw [String.intercalate_cons_cons, String.toList_append, String.toList_append, ih]
          rfl

end Text

end BatchRun
