import BatchRun.Proofs.Text.Trim
import BatchRun.Run.State

/-!
# Words for States

Which words name a state, and what becomes of the others.

A word is compared trimmed and in capitals, but it is kept as it came. So there are
two things that must not go wrong. A state that is written down and read again has to
be the same state, also where a word was kept: it may not turn into a known state on
the second reading, which might end a run. And two different words that were kept may
not become one state, although they may well be compared alike.

Neither happens because a word is kept only if it names nothing. What it is compared
as is the same each time, so it names nothing later either, and nothing was taken
from it.

## Main definitions

* `Text.Around`: A text is another one with blanks around it.
* `Text.SameWord`: Two texts are the same word but for case and blanks around it.
* `RunState.Spells`: A text spells the word of a state.

## Theorems

* `Text.trimWhere_map_toUpper`: Trimming and capitals do not interfere.
* `RunState.compared_eq_iff`, `RunState.compared_eq_wire_iff`: Which texts are
  compared alike, and which are compared as the word of a state.
* `RunState.ofText_cases`: A text names one state, or it is kept.
* `RunState.ofText_retracts`: All of it.
-/

namespace BatchRun

namespace Text

/-- A text is another one with blanks around it. -/
def Around (core text : List Char) : Prop :=
  ∃ front back, text = front ++ (core ++ back) ∧ (∀ c ∈ front, isBlank c = true) ∧
    ∀ c ∈ back, isBlank c = true

/-- Two texts are the same word, but for the case of the letters of ASCII and for
    blanks around it. -/
def SameWord (first second : String) : Prop :=
  ∃ core other, Around core first.toList ∧ Around other second.toList ∧
    core.map Char.toUpper = other.map Char.toUpper

theorem Around.refl (text : List Char) : Around text text :=
  ⟨[], [], (List.append_nil text).symm, fun _ hno => absurd hno List.not_mem_nil,
    fun _ hno => absurd hno List.not_mem_nil⟩

/-- Every text has blanks, or nothing, around what trimming leaves of it. -/
theorem around_trim (text : String) : Around (trim text).toList text.toList := by
  rw [trim, String.toList_ofList]
  exact exists_around_trimWhere isBlank text.toList

theorem trim_of_around {core : List Char} {text : String} (h : Around core text.toList) :
    (trim text).toList = trimWhere isBlank core := by
  rcases h with ⟨front, back, htext, hfront, hback⟩
  rw [trim, String.toList_ofList, htext, trimWhere_around hfront hback]

/-- A letter is no blank in either case, and nothing else has a case. -/
theorem isBlank_toUpper (c : Char) : isBlank c.toUpper = isBlank c := by
  by_cases hascii : c.toNat < 0x80
  · exact forall_ascii c hascii (by decide +kernel)
  · have hbeyond : ¬ ('a'.val ≤ c.val ∧ c.val ≤ 'z'.val) := fun hletter =>
      hascii (Nat.lt_of_le_of_lt (UInt32.le_iff_toNat_le.mp hletter.2) (by decide))
    have hsame : c.toUpper = c := dif_neg hbeyond
    rw [hsame]

/-- Trimming and capitals do not interfere. -/
theorem trimWhere_map_toUpper (text : List Char) :
    trimWhere isBlank (text.map Char.toUpper) = (trimWhere isBlank text).map Char.toUpper := by
  have htest : isBlank ∘ Char.toUpper = isBlank := funext isBlank_toUpper
  rw [trimWhere, trimWhere, List.dropWhile_map, htest, ← List.map_reverse, List.dropWhile_map,
    htest, ← List.map_reverse]

end Text

namespace RunState

open Text

variable {word other : String} {state : RunState}

/-- A text spells the word of a state: that word is in it in letters of either case,
    with blanks around it. -/
def Spells (state : RunState) (word : String) : Prop :=
  ∃ core, Around core word.toList ∧ core.map Char.toUpper = state.wire.toList

theorem toList_compared (word : String) :
    (compared word).toList = (trim word).toList.map Char.toUpper := by
  rw [compared, String.toList_ofList]

/-- What a text is compared as does not depend on the blanks around it. -/
theorem compared_of_around {core : List Char} (h : Around core word.toList) :
    (compared word).toList = trimWhere isBlank (core.map Char.toUpper) := by
  rw [toList_compared, trim_of_around h, trimWhere_map_toUpper]

/-- Texts are compared alike exactly if they are the same word. -/
theorem compared_eq_iff : compared word = compared other ↔ SameWord word other := by
  rw [← String.toList_inj]
  constructor
  · intro h
    refine ⟨_, _, around_trim word, around_trim other, ?_⟩
    rwa [← toList_compared, ← toList_compared]
  · rintro ⟨core, core', hword, hother, hcase⟩
    rw [compared_of_around hword, compared_of_around hother, hcase]

theorem mem_known_iff : state ∈ known ↔ state.isRecognized = true := by
  cases state with
  | other word => simp [known, isRecognized]
  | _ => decide

/-- The words of the known states have nothing to be trimmed. -/
theorem trimWhere_wire (h : state ∈ known) :
    trimWhere isBlank state.wire.toList = state.wire.toList := by
  have hall : ∀ state ∈ known, trimWhere isBlank state.wire.toList = state.wire.toList := by
    decide +kernel
  exact hall state h

/-- A text is compared as the word of a known state exactly if it spells that word. -/
theorem compared_eq_wire_iff (h : state ∈ known) :
    compared word = state.wire ↔ state.Spells word := by
  rw [← String.toList_inj]
  constructor
  · intro hword
    exact ⟨_, around_trim word, by rwa [← toList_compared]⟩
  · rintro ⟨core, hword, hcase⟩
    rw [compared_of_around hword, hcase, trimWhere_wire h]

/-- A text that is compared as the word of a known state names this one, since no two
    of them have the same word. -/
theorem ofText_of_compared (h : state ∈ known) (hword : compared word = state.wire) :
    ofText word = state := by
  have hfirst : ∀ state ∈ known,
      known.find? (fun other => other.wire = state.wire) = some state := by
    decide +kernel
  rw [ofText, hword, hfirst state h, Option.getD_some]

/-- A text names one known state, or it names none and is kept. -/
theorem ofText_cases (word : String) :
    (∃ state ∈ known, compared word = state.wire ∧ ofText word = state) ∨
      (∀ state ∈ known, compared word ≠ state.wire) ∧ ofText word = .other word := by
  by_cases h : ∃ state ∈ known, compared word = state.wire
  · rcases h with ⟨state, hmem, hword⟩
    exact .inl ⟨state, hmem, hword, ofText_of_compared hmem hword⟩
  · have hnone : ∀ state ∈ known, compared word ≠ state.wire :=
      fun state hmem hword => h ⟨state, hmem, hword⟩
    refine .inr ⟨hnone, ?_⟩
    rw [ofText, List.find?_eq_none.mpr, Option.getD_none]
    intro state hmem hword
    exact hnone state hmem (of_decide_eq_true hword).symm

/-- A text names a known state exactly if it spells the word of that state. -/
theorem ofText_eq_iff (h : state ∈ known) : ofText word = state ↔ state.Spells word := by
  rw [← compared_eq_wire_iff h]
  refine ⟨fun hname => ?_, ofText_of_compared h⟩
  rcases ofText_cases word with ⟨named, _, hword, hnamed⟩ | ⟨_, hkept⟩
  · rw [hnamed] at hname
    rw [← hname]
    exact hword
  · rw [hkept] at hname
    rw [← hname, mem_known_iff] at h
    exact absurd h Bool.false_ne_true

/-- A text is kept exactly if it names nothing. -/
theorem ofText_of_not_isRecognized (h : (ofText word).isRecognized = false) :
    ofText word = .other word := by
  rcases ofText_cases word with ⟨state, hmem, _, hname⟩ | ⟨_, hkept⟩
  · rw [hname, Bool.eq_false_iff, ne_eq, ← mem_known_iff] at h
    exact absurd hmem h
  · exact hkept

/-- The word of a known state spells this state. -/
theorem spells_wire (h : state ∈ known) : state.Spells state.wire := by
  have hcapitals : ∀ state ∈ known, state.wire.toList.map Char.toUpper = state.wire.toList := by
    decide +kernel
  exact ⟨_, Around.refl _, hcapitals state h⟩

/-- Reading what was written of a state that was read gives this state again. A text
    names one of the nine known states exactly if it spells its word, and then just
    the texts that are the same word name it. Every other text is kept as it came, as
    a state that does not end a run and that no other text names. -/
theorem ofText_retracts (word : String) :
    ofText (ofText word).wire = ofText word ∧
    (∀ state, state.isRecognized = true → (ofText word = state ↔ state.Spells word)) ∧
    ((ofText word).isRecognized = true →
      ∀ other, ofText other = ofText word ↔ SameWord word other) ∧
    ((ofText word).isRecognized = false →
      ofText word = .other word ∧ (ofText word).isTerminal = false ∧
        ∀ other, other ≠ word → ofText other ≠ ofText word) := by
  refine ⟨?_, fun state hstate => ofText_eq_iff (mem_known_iff.mpr hstate), fun hknown other => ?_,
    fun hkept => ?_⟩
  · rcases ofText_cases word with ⟨state, hmem, _, hname⟩ | ⟨_, hkept⟩
    · rw [hname]
      exact (ofText_eq_iff hmem).mpr (spells_wire hmem)
    · rw [hkept, wire, hkept]
  · rcases ofText_cases word with ⟨state, hmem, hword, hname⟩ | ⟨_, hkept⟩
    · rw [hname, ofText_eq_iff hmem, ← compared_eq_wire_iff hmem, ← compared_eq_iff, hword]
      exact eq_comm
    · rw [hkept] at hknown
      exact absurd hknown Bool.false_ne_true
  · have hword := ofText_of_not_isRecognized hkept
    have hterminal : (ofText word).isTerminal = false := by rw [hword]; rfl
    refine ⟨hword, hterminal, fun other hne hsame => hne ?_⟩
    -- The other text names no known state either, so it was kept too.
    have hother : ofText other = .other other :=
      ofText_of_not_isRecognized (by rw [hsame]; exact hkept)
    rw [hother, hword] at hsame
    exact RunState.other.inj hsame

/-- A word in mixed case between an ideographic space and a line feed names a state
    that ends a run. A word with a letter that only Unicode knows as a form of S, and
    one with a space of no width behind it, name nothing and are not confused. -/
theorem ofText_retracts_lookalikes :
    (ofText "\u3000canCelled\n" = .cancelled ∧
      ofText " CANCELLED\u00a0" = ofText "\u3000canCelled\n") ∧
    ofText "\u017fuccess" = .other "\u017fuccess" ∧
    (ofText "\u017fuccess").isTerminal = false ∧
    ofText "SUCCESS\u200b" ≠ ofText "\u017fuccess" := by
  have hpadded := ofText_retracts "\u3000canCelled\n"
  have hlookalike := (ofText_retracts "\u017fuccess").2.2.2 (by decide +kernel)
  have hfirst : Around "canCelled".toList "\u3000canCelled\n".toList :=
    ⟨['\u3000'], ['\n'], by decide +kernel, List.forall_mem_singleton.mpr (by decide +kernel),
      List.forall_mem_singleton.mpr (by decide +kernel)⟩
  have hsecond : Around "CANCELLED".toList " CANCELLED\u00a0".toList :=
    ⟨[' '], ['\u00a0'], by decide +kernel, List.forall_mem_singleton.mpr (by decide +kernel),
      List.forall_mem_singleton.mpr (by decide +kernel)⟩
  have hname : ofText "\u3000canCelled\n" = .cancelled :=
    (hpadded.2.1 .cancelled rfl).mpr ⟨_, hfirst, by decide +kernel⟩
  have hsame : ofText " CANCELLED\u00a0" = ofText "\u3000canCelled\n" :=
    (hpadded.2.2.1 (by rw [hname]; rfl) _).mpr ⟨_, _, hfirst, hsecond, by decide +kernel⟩
  exact ⟨⟨hname, hsame⟩, hlookalike.1, hlookalike.2.1, hlookalike.2.2 _ (by decide +kernel)⟩

end RunState

end BatchRun
