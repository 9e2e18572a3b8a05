import BatchRun.Json.Reader
import BatchRun.Json.Writer

/-!
# Texts in JSON

A text that was written in JSON is read as the same text.

Each character is written by itself: most as they are, some behind a backslash, and
a control without a letter of its own by its code. The scanner holds for each of them
one part of the text, a character or sixteen bits, and no two such parts are taken
for a surrogate pair, since the code of a control is no half of one.

## Main definitions

* `Json.partOf`: What the scanner holds for a character.

## Theorems

* `Json.tokensFrom_escaped`: A written character is scanned as its part.
* `Json.characters?_map_partOf`: The parts of a text stand for it.
* `Json.read?_write_ofText`: A written text reads back.
-/

namespace BatchRun

namespace Json

/-- What the scanner holds for a character that was written. -/
def partOf (c : Char) : TextPart :=
  if c.toNat < 0x20 ∧ c ∉ ['\x08', '\x0c', '\n', '\r', '\t'] then .escaped c.toNat else .char c

/-- A character that completes no token. -/
theorem tokensFrom_cons {scan : Scan} (next : Scan) {c : Char}
    (h : scan.step c = some ([], next)) (rest : List Char) :
    tokensFrom scan (c :: rest) = tokensFrom next rest := by
  rw [tokensFrom, h]
  simp only [List.nil_append]
  exact Option.map_id'

theorem digitValue_lowerDigit {n : Nat} (h : n < 16) :
    Hex.digitValue (Hex.lowerDigit n) = some n := by
  have hall : ∀ n < 16, Hex.digitValue (Hex.lowerDigit n) = some n := by decide
  exact hall n h

theorem tokensFrom_code {parts : List TextPart} {n : Nat} (h : n < 0x20) (rest : List Char) :
    tokensFrom (.text parts)
        (['\\', 'u', '0', '0', Hex.lowerDigit (n / 16), Hex.lowerDigit (n % 16)] ++ rest) =
      tokensFrom (.text (.escaped n :: parts)) rest := by
  have hvalue : (0 * 16 + n / 16) * 16 + n % 16 = n := by omega
  simp only [List.cons_append, List.nil_append]
  rw [tokensFrom_cons (.escape parts) rfl,
    tokensFrom_cons (.code parts 0 0) rfl,
    tokensFrom_cons (.code parts 0 1) rfl,
    tokensFrom_cons (.code parts 0 2) rfl,
    tokensFrom_cons (.code parts (0 * 16 + n / 16) 3) (by
      rw [Scan.step, digitValue_lowerDigit (by omega)]; rfl),
    tokensFrom_cons (.text (.escaped n :: parts)) (by
      rw [Scan.step, digitValue_lowerDigit (by omega), Option.map_some, if_pos rfl, hvalue])]

/-- A written character is scanned as its part. -/
theorem tokensFrom_escaped (c : Char) (parts : List TextPart) (rest : List Char) :
    tokensFrom (.text parts) (escaped c ++ rest) = tokensFrom (.text (partOf c :: parts)) rest := by
  have hletter : ∀ {letter d : Char}, letter ≠ 'u' → escapedChar letter = some d →
      partOf d = .char d → tokensFrom (.text parts) (['\\', letter] ++ rest) =
        tokensFrom (.text (partOf d :: parts)) rest := by
    intro letter d hu hletter hd
    rw [List.cons_append, List.cons_append, List.nil_append,
      tokensFrom_cons (.escape parts) rfl,
      tokensFrom_cons (.text (.char d :: parts)) (by
        rw [Scan.step, if_neg hu, hletter]; rfl), hd]
  unfold escaped
  split
  · next hc =>
    rw [hc]
    exact hletter (by decide) rfl rfl
  · next hquote =>
    split
    · next hc =>
      rw [hc]
      exact hletter (by decide) rfl rfl
    · next hback =>
      by_cases hmarks : c ∈ ['\x08', '\x0c', '\n', '\r', '\t']
      · -- These have letters of their own.
        simp only [List.mem_cons, List.not_mem_nil, or_false] at hmarks
        rcases hmarks with rfl | rfl | rfl | rfl | rfl
        all_goals exact hletter (by decide) rfl rfl
      · have hplain := hmarks
        simp only [List.mem_cons, List.not_mem_nil, or_false, not_or] at hplain
        rw [if_neg hplain.1, if_neg hplain.2.1, if_neg hplain.2.2.1, if_neg hplain.2.2.2.1,
          if_neg hplain.2.2.2.2]
        split
        · next hcontrol =>
          rw [partOf, if_pos ⟨hcontrol, hmarks⟩]
          exact tokensFrom_code hcontrol rest
        · next hcontrol =>
          rw [partOf, if_neg fun h => hcontrol h.1, List.singleton_append]
          refine tokensFrom_cons _ ?_ rest
          rw [Scan.step, if_neg hquote, if_neg hback, if_neg hcontrol]

/-- The code of a control is no half of a pair, whatever follows it. -/
theorem characters?_escaped {n : Nat} (h : n < 0x20) (parts : List TextPart) :
    characters? (.escaped n :: parts) = (characters? parts).map (Char.ofNat n :: ·) := by
  have hhigh : isHighHalf n = false := by
    rw [isHighHalf, Bool.and_eq_false_iff, decide_eq_false_iff_not]
    omega
  have hlow : isLowHalf n = false := by
    rw [isLowHalf, Bool.and_eq_false_iff, decide_eq_false_iff_not]
    omega
  cases parts with
  | nil => simp only [characters?, hhigh, hlow, Bool.or_self, Bool.false_eq_true, if_false]
  | cons part rest =>
      cases part with
      | char c => simp only [characters?, hhigh, hlow, Bool.or_self, Bool.false_eq_true, if_false]
      | escaped low => simp only [characters?, hhigh, hlow, Bool.false_eq_true, if_false]
      | fault => simp only [characters?, hhigh, hlow, Bool.or_self, Bool.false_eq_true, if_false]

/-- The parts of a text stand for it. -/
theorem characters?_map_partOf (text : List Char) : characters? (text.map partOf) = some text := by
  induction text with
  | nil => rfl
  | cons c rest ih =>
      rw [List.map_cons, partOf]
      split
      · next hcontrol => rw [characters?_escaped hcontrol.1, ih, Option.map_some, Char.ofNat_toNat]
      · rw [characters?, ih, Option.map_some]

theorem tokensFrom_written (text : List Char) (parts : List TextPart) (rest : List Char) :
    tokensFrom (.text parts) (text.flatMap escaped ++ rest) =
      tokensFrom (.text ((text.map partOf).reverse ++ parts)) rest := by
  induction text generalizing parts with
  | nil => rfl
  | cons c more ih =>
      rw [List.flatMap_cons, List.append_assoc, tokensFrom_escaped, ih, List.map_cons,
        List.reverse_cons, List.append_assoc, List.singleton_append]

/-- A written text reads back. -/
theorem read?_write_ofText (text : String) : read? (write (ofText text)) = some (ofText text) := by
  have htokens : tokens? (write (ofText text)) = some [.text (some text)] := by
    rw [tokens?, write, String.toList_ofList, ofText, written, quoted, Option.getD_some,
      tokensFrom_cons (.text []) rfl, tokensFrom_written, List.append_nil]
    have hclose : Scan.step (.text (text.toList.map partOf).reverse) '"' =
        some ([.text (some text)], .between) := by
      rw [Scan.step, if_pos rfl, List.reverse_reverse, characters?_map_partOf, Option.map_some,
        String.ofList_toList]
    rw [tokensFrom, hclose]
    rfl
  rw [read?, htokens]
  rfl

end Json

end BatchRun
