import BatchRun.Proofs.Text.Pieces
import BatchRun.Text.Blank

/-!
# Words of a Text

Texts that are written one after the other and read at white space.

Whatever stands between two blanks is read on its own, so a text that was put
together with blanks is read as the words of its parts. The words of a text are
exactly its characters that are not white space. So several texts are read back as
they are only if none of them holds white space.

## Main definitions

* `Text.IsSolid`: A text without white space.

## Theorems

* `words_intercalate`: The words of texts with spaces between them.
* `flatten_words`: The words hold every character that is not white space.
* `flatMap_words_eq_iff`: Which texts are read back as they are.
-/

namespace BatchRun

namespace Text

/-- A text without white space. -/
def IsSolid (text : String) : Prop := ∀ c ∈ text.toList, isBlank c = false

instance (text : String) : Decidable (IsSolid text) :=
  List.decidableBAll (fun c => isBlank c = false) text.toList

theorem isSolid_append {first second : String} :
    IsSolid (first ++ second) ↔ IsSolid first ∧ IsSolid second := by
  simp only [IsSolid, String.toList_append, List.forall_mem_append]

/-- What stands on the two sides of a space is read separately. -/
theorem words_append_space (before after : String) :
    words (before ++ " " ++ after) = words before ++ words after := by
  have hspace : (before ++ " " ++ after).toList = before.toList ++ ' ' :: after.toList := by
    simp only [String.toList_append, String.reduceToList, List.append_assoc, List.cons_append,
      List.nil_append]
  rw [words, hspace, splitWhere_append_cons (by decide), List.filter_append, List.map_append]
  rfl

/-- Texts with spaces between them are read as the words of each. -/
theorem words_intercalate (texts : List String) :
    words (" ".intercalate texts) = texts.flatMap words := by
  induction texts with
  | nil => rfl
  | cons text rest ih =>
      cases rest with
      | nil => rw [String.intercalate_singleton, List.flatMap_cons, List.flatMap_nil,
          List.append_nil]
      | cons next rest =>
          rw [String.intercalate_cons_cons, words_append_space, ih, ← List.flatMap_cons]

theorem eq_empty_of_intercalate {separator text : String} {rest : List String}
    (h : separator.intercalate (text :: rest) = "") : text = "" := by
  cases rest with
  | nil => rwa [String.intercalate_singleton] at h
  | cons next rest =>
      rw [String.intercalate_cons_cons, String.append_assoc] at h
      exact (String.append_eq_empty_iff.mp h).1

/-- The words of a text hold its characters that are not white space, in
    order. -/
theorem flatten_words (text : String) :
    (words text).flatMap String.toList = text.toList.filter (!isBlank ·) := by
  simp only [words, List.flatMap_def, List.map_map, Function.comp_def, String.toList_ofList,
    List.map_id_fun', id_eq, List.flatten_filter_not_isEmpty, flatten_splitWhere]

theorem words_of_isSolid {text : String} (hsolid : IsSolid text) (hempty : text ≠ "") :
    words text = [text] := by
  have hlist : text.toList.isEmpty = false := by
    rw [List.isEmpty_eq_false_iff, ne_eq, String.toList_eq_nil_iff]
    exact hempty
  rw [words, splitWhere_of_forall hsolid, List.filter_cons_of_pos (by rw [hlist]; rfl),
    List.filter_nil, List.map_singleton, String.ofList_toList]

/-- The characters of a text that are not white space are at most its
    characters, and all of them only if the text is solid. -/
theorem isSolid_of_length_le {text : String}
    (h : text.toList.length ≤ (text.toList.filter (!isBlank ·)).length) : IsSolid text := by
  intro c hc
  have hall := List.length_filter_eq_length_iff.mp
    (Nat.le_antisymm (List.length_filter_le _ _) h) c hc
  rwa [Bool.not_eq_true'] at hall

/-- Several texts, each behind the same word, are read back as they are exactly
    if each of them is one word. What white space makes of one text cannot be
    made up for by another, since the characters would no longer be as many. -/
theorem flatMap_words_eq_iff (word : String) (texts : List String) (hempty : "" ∉ texts) :
    (texts.flatMap fun text => word :: words text) = (texts.flatMap fun text => [word, text]) ↔
      ∀ text ∈ texts, IsSolid text := by
  constructor
  · intro h
    have hlength := congrArg (fun words => (words.flatMap String.toList).length) h
    simp only [List.flatMap_assoc, List.flatMap_cons, flatten_words, List.flatMap_nil,
      List.append_nil] at hlength
    clear h hempty
    -- No text has more of these characters than it has characters, so none has fewer.
    have hle : ∀ texts : List String,
        (texts.flatMap fun text => word.toList ++ text.toList.filter (!isBlank ·)).length ≤
          (texts.flatMap fun text => word.toList ++ text.toList).length := by
      intro texts
      induction texts with
      | nil => exact Nat.le_refl _
      | cons text rest ih =>
          have htext := List.length_filter_le (!isBlank ·) text.toList
          simp only [List.flatMap_cons, List.length_append]
          omega
    induction texts with
    | nil => intro text hmem; exact absurd hmem List.not_mem_nil
    | cons text rest ih =>
        have htext := List.length_filter_le (!isBlank ·) text.toList
        have hrest := hle rest
        simp only [List.flatMap_cons, List.length_append] at hlength
        rw [List.forall_mem_cons]
        exact ⟨isSolid_of_length_le (by omega), ih (by omega)⟩
  · intro hsolid
    rw [List.flatMap_def, List.flatMap_def]
    refine congrArg List.flatten (List.map_congr_left fun text hmem => ?_)
    rw [words_of_isSolid (hsolid text hmem) fun h => hempty (h ▸ hmem)]

end Text

end BatchRun
