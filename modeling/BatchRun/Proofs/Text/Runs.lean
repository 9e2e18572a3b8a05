import BatchRun.Proofs.Text.Trim
import BatchRun.Proofs.Text.Words

/-!
# Words and the Blanks Around Them

What the words of a text are, said of the text itself.

A text is made of blanks, a word, blanks, a word and so on. A word is not empty, no
blank is in it, and it goes on until the next blank or the end, so there is one way
only to see a text like this. `words` finds it by cutting at every blank, which
`Runs` does not mention.

Trimming takes blanks from both ends and nothing else. The words of a text are
therefore those of the trimmed one, and a text counts as given exactly if some
character of it is no blank.

## Main definitions

* `Text.Runs`: A text as words with blanks around them.
* `Text.wordsOf`: The words of a list of characters.
* `Text.AllBlank`: A text of nothing but white space.

## Theorems

* `Text.Runs.wordsOf_eq`, `Text.runs_wordsOf`: There is one way to see a text as
  words, and it is found.
* `Text.exists_blanks_trim`: What trimming takes away.
* `Text.words_trim`: Trimming does not change the words.
* `Text.given_eq_none_iff`: Which texts do not count as given.
-/

namespace BatchRun

namespace Text

/-- A text as words with blanks around them. A word goes on for as long as there is
    no blank, and blanks may stand before it and behind the last one. -/
inductive Runs : List Char → List (List Char) → Prop
  | blanks {gap : List Char} (hgap : ∀ c ∈ gap, isBlank c = true) : Runs gap []
  | word {gap word rest : List Char} {more : List (List Char)}
      (hgap : ∀ c ∈ gap, isBlank c = true) (hne : word ≠ [])
      (hword : ∀ c ∈ word, isBlank c = false)
      (hends : ∀ c, rest.head? = some c → isBlank c = true) (hrest : Runs rest more) :
      Runs (gap ++ (word ++ rest)) (word :: more)

/-- The words of a list of characters. -/
def wordsOf (text : List Char) : List (List Char) :=
  (splitWhere isBlank text).filter (!·.isEmpty)

theorem words_eq (text : String) : words text = (wordsOf text.toList).map String.ofList := rfl

/-- What stands on the two sides of a blank is read separately. -/
theorem wordsOf_append_blank {c : Char} (hc : isBlank c = true) (before after : List Char) :
    wordsOf (before ++ c :: after) = wordsOf before ++ wordsOf after := by
  unfold wordsOf
  rw [splitWhere_append_cons hc, List.filter_append]

/-- Blanks before a text belong to no word. -/
theorem wordsOf_blanks_append {gap : List Char} (hgap : ∀ c ∈ gap, isBlank c = true)
    (text : List Char) : wordsOf (gap ++ text) = wordsOf text := by
  induction gap with
  | nil => rfl
  | cons c rest ih =>
      rw [List.forall_mem_cons] at hgap
      have hfront := wordsOf_append_blank hgap.1 [] (rest ++ text)
      rw [List.nil_append] at hfront
      rw [List.cons_append, hfront, ih hgap.2]
      rfl

/-- Nor do blanks behind it. -/
theorem wordsOf_append_blanks {gap : List Char} (hgap : ∀ c ∈ gap, isBlank c = true)
    (text : List Char) : wordsOf (text ++ gap) = wordsOf text := by
  cases gap with
  | nil => rw [List.append_nil]
  | cons c rest =>
      rw [List.forall_mem_cons] at hgap
      have hrest := wordsOf_blanks_append hgap.2 []
      rw [List.append_nil] at hrest
      rw [wordsOf_append_blank hgap.1, hrest]
      exact List.append_nil _

theorem wordsOf_of_solid {word : List Char} (hne : word ≠ [])
    (hword : ∀ c ∈ word, isBlank c = false) : wordsOf word = [word] := by
  unfold wordsOf
  rw [splitWhere_of_forall hword, List.filter_cons_of_pos, List.filter_nil]
  rw [List.isEmpty_eq_false_iff.mpr hne]
  rfl

/-- However a text is seen as words, they are the ones between its blanks. -/
theorem Runs.wordsOf_eq {text : List Char} {found : List (List Char)} (h : Runs text found) :
    wordsOf text = found := by
  induction h with
  | blanks hgap =>
      have hnone := wordsOf_blanks_append hgap []
      rw [List.append_nil] at hnone
      rw [hnone]
      rfl
  | @word gap word rest more hgap hne hword hends _ ih =>
      rw [wordsOf_blanks_append hgap]
      -- Behind the word the text ends, or a blank cuts it from the others.
      cases rest with
      | nil =>
          rw [List.append_nil, wordsOf_of_solid hne hword, ← ih]
          rfl
      | cons c rest =>
          have hblank : isBlank c = true := hends c rfl
          have hmore : wordsOf ([c] ++ rest) = wordsOf rest :=
            wordsOf_blanks_append (fun d hd => List.mem_singleton.mp hd ▸ hblank) rest
          rw [List.singleton_append, ih] at hmore
          rw [wordsOf_append_blank hblank, wordsOf_of_solid hne hword, ← hmore,
            List.singleton_append]

/-- A front of which every character passes a test, up to the first that does not. -/
theorem exists_front (test : Char → Bool) (text : List Char) :
    ∃ front back, text = front ++ back ∧ (∀ c ∈ front, test c = true) ∧
      ∀ c, back.head? = some c → test c = false := by
  refine ⟨text.takeWhile test, text.dropWhile test, List.takeWhile_append_dropWhile.symm,
    fun c hc => List.all_eq_true.mp List.all_takeWhile c hc, ?_⟩
  intro c hc
  have hnot := List.head?_dropWhile_not test text
  rw [hc] at hnot
  exact hnot

/-- Every text can be seen as words. -/
theorem exists_runs (text : List Char) : ∃ found, Runs text found := by
  -- The induction is on the length, since a word and the blanks before it go at once.
  induction hlength : text.length using Nat.strongRecOn generalizing text with
  | _ length ih =>
    rcases exists_front isBlank text with ⟨gap, tail, rfl, hgap, hfirst⟩
    cases tail with
    | nil =>
        rw [List.append_nil]
        exact ⟨[], .blanks hgap⟩
    | cons first behind =>
        rcases exists_front (fun c => !isBlank c) (first :: behind) with
          ⟨word, rest, hsplit, hword, hends⟩
        have hne : word ≠ [] := by
          rintro rfl
          -- The first character behind the blanks would be a blank itself.
          have hblank := hends first (by rw [← List.nil_append rest, ← hsplit]; rfl)
          rw [hfirst first rfl] at hblank
          exact absurd hblank (by decide)
        have hshorter : rest.length < length := by
          have hpos := List.length_pos_iff.mpr hne
          rw [← hlength, hsplit, List.length_append, List.length_append]
          omega
        rcases ih rest.length hshorter rest rfl with ⟨more, hmore⟩
        rw [hsplit]
        refine ⟨word :: more, .word hgap hne (fun c hc => ?_) (fun c hc => ?_) hmore⟩
        · have hkept := hword c hc
          rwa [Bool.not_eq_true'] at hkept
        · have hnot := hends c hc
          rwa [Bool.not_eq_false'] at hnot

/-- Every text is seen as its words. -/
theorem runs_wordsOf (text : List Char) : Runs text (wordsOf text) := by
  rcases exists_runs text with ⟨found, hfound⟩
  rw [hfound.wordsOf_eq]
  exact hfound

/-- The words of a text, as the only way to see it as words. -/
theorem runs_iff {text : String} {found : List String} :
    Runs text.toList (found.map String.toList) ↔ found = words text := by
  have hback : ((wordsOf text.toList).map String.ofList).map String.toList =
      wordsOf text.toList := by
    rw [List.map_map]
    exact (List.map_congr_left fun word _ => String.toList_ofList).trans (List.map_id _)
  constructor
  · intro h
    rw [words_eq, h.wordsOf_eq, List.map_map]
    exact ((List.map_congr_left fun word _ => String.ofList_toList).trans (List.map_id _)).symm
  · rintro rfl
    rw [words_eq, hback]
    exact runs_wordsOf _

/-- A text of nothing but white space. -/
def AllBlank (text : String) : Prop := ∀ c ∈ text.toList, isBlank c = true

instance (text : String) : Decidable (AllBlank text) := List.decidableBAll _ text.toList

/-- Trimming takes blanks from both ends, and nothing else. -/
theorem exists_blanks_trim (text : String) :
    ∃ before after, text.toList = before ++ (trim text).toList ++ after ∧
      (∀ c ∈ before, isBlank c = true) ∧ ∀ c ∈ after, isBlank c = true := by
  rcases exists_around_trimWhere isBlank text.toList with ⟨before, after, htext, hblank⟩
  refine ⟨before, after, ?_, hblank⟩
  rw [trim, String.toList_ofList, List.append_assoc]
  exact htext

theorem mem_of_mem_trim {text : String} {c : Char} (h : c ∈ (trim text).toList) :
    c ∈ text.toList := by
  rcases exists_blanks_trim text with ⟨before, after, htext, _, _⟩
  rw [htext]
  exact List.mem_append_left _ (List.mem_append_right _ h)

/-- Trimming does not change the words. -/
theorem words_trim (text : String) : words (trim text) = words text := by
  rcases exists_blanks_trim text with ⟨before, after, htext, hbefore, hafter⟩
  rw [words_eq, words_eq, htext, wordsOf_append_blanks hafter, wordsOf_blanks_append hbefore]

/-- Nothing is left of a text exactly if all of it is blank. -/
theorem trim_eq_empty_iff {text : String} : trim text = "" ↔ AllBlank text := by
  rcases exists_blanks_trim text with ⟨before, after, htext, hbefore, hafter⟩
  constructor
  · intro hempty c hc
    rw [htext, hempty, String.toList_empty, List.append_nil, List.mem_append] at hc
    rcases hc with hc | hc
    · exact hbefore c hc
    · exact hafter c hc
  · intro hall
    have hdrop : text.toList.dropWhile isBlank = [] := by
      rw [← List.append_nil text.toList, List.dropWhile_append_of_pos hall, List.dropWhile_nil]
    rw [trim, trimWhere, hdrop]
    rfl

/-- A text does not count as given exactly if all of it is blank. -/
theorem given_eq_none_iff {text : String} : given text = none ↔ AllBlank text := by
  rw [← trim_eq_empty_iff, ← String.isEmpty_iff]
  unfold given
  by_cases hempty : (trim text).isEmpty = true
  · simp only [hempty, if_true]
  · simp only [hempty, if_false, Bool.false_eq_true, reduceCtorEq]

/-- A text that counts as given is given trimmed. -/
theorem eq_trim_of_given {text value : String} (h : given text = some value) :
    value = trim text := by
  unfold given at h
  by_cases hempty : (trim text).isEmpty = true
  · simp only [hempty, if_true, reduceCtorEq] at h
  · simp only [hempty, if_false, Option.some.injEq, Bool.false_eq_true] at h
    exact h.symm

end Text

end BatchRun
