import BatchRun.Proofs.Json.Scanning
import BatchRun.Proofs.Text.Utf8
import Mathlib.Tactic.SplitIfs

/-!
# JSON in Bytes

Which bytes a value is read of.

Bytes that are no character are a part of the text that they stand in. The part stays
until the text is closed, and the text has no characters then. Nothing but a text takes
it in. So where every text in the tokens has its characters there was no such part, and
the bytes were scanned as the characters that they are. A text that nobody looks into may
hold any bytes.

## Main definitions

* `Json.Scan.parts`: The parts of the text that is not closed yet.

## Theorems

* `Json.readBytes?_of_text?`: Bytes in UTF-8 are read as the text that they are.
* `Json.characters?_of_fault_mem`: A text with a fault in it has no characters.
* `Json.fault_not_mem_of_piece`, `Json.map_char_of_tokensOfPieces`: One piece, and all.
* `Json.readBytes?_iff_spells`: Which bytes a value is read of.
-/

namespace BatchRun

namespace Json

theorem tokensOfPieces_map_char (scan : Scan) (text : List Char) :
    tokensOfPieces scan (text.map .char) = tokensFrom scan text := by
  induction text generalizing scan with
  | nil => rfl
  | cons c rest ih =>
      rw [List.map_cons, tokensOfPieces, tokensFrom, Scan.piece]
      simp only [ih]

/-- Bytes in UTF-8 are read as the text that they are. -/
theorem readBytes?_of_text? {bytes : Bytes} {text : String} (h : Utf8.text? bytes = some text) :
    readBytes? bytes = read? text := by
  rw [readBytes?, Utf8.decode_of_text? h, tokensOfPieces_map_char, read?, tokens?]

/-- A text with a fault in it has no characters. -/
theorem characters?_of_fault_mem {parts : List TextPart} (h : .fault ∈ parts) :
    characters? parts = none := by
  fun_induction characters? parts with
  | case1 => exact absurd h List.not_mem_nil
  | case3 | case5 | case6 | case8 => rfl
  | case2 c rest ih =>
      simp only [List.mem_cons, reduceCtorEq, false_or] at h
      rw [ih h, Option.map_none]
  | case4 high low rest hhigh hlow ih =>
      simp only [List.mem_cons, reduceCtorEq, false_or] at h
      rw [ih h, Option.map_none]
  | case7 high low rest hhigh hlow ih =>
      simp only [List.mem_cons, reduceCtorEq, false_or] at h ih
      rw [ih h, Option.map_none]
  | case9 bits rest hrest hhalf ih =>
      simp only [List.mem_cons, reduceCtorEq, false_or] at h
      rw [ih h, Option.map_none]

/-- The parts of the text that is not closed yet. -/
def Scan.parts : Scan → List TextPart
  | .text parts => parts
  | .escape parts => parts
  | .code parts _ _ => parts
  | _ => []

section

variable {scan next : Scan} {found : List Token}

theorem fault_not_mem_of_step {c : Char} (h : scan.step c = some (found, next))
    (hfound : .text none ∉ found) (hnext : .fault ∉ next.parts) : .fault ∉ scan.parts := by
  intro hfault
  cases scan with
  | between => exact List.not_mem_nil hfault
  | word left token => exact List.not_mem_nil hfault
  | number n stage => exact List.not_mem_nil hfault
  | text parts =>
      have hlost := characters?_of_fault_mem (List.mem_reverse.mpr hfault)
      rw [Scan.parts] at hlost
      rw [Scan.step, hlost] at h
      split_ifs at h
      · cases h
        exact hfound (List.mem_singleton.mpr rfl)
      · cases h
        exact hnext hfault
      · cases h
        exact hnext (List.mem_cons_of_mem _ hfault)
  | escape parts =>
      rw [Scan.step] at h
      split_ifs at h
      · cases h
        exact hnext hfault
      · rcases Option.map_eq_some_iff.mp h with ⟨e, _, he⟩
        cases he
        exact hnext (List.mem_cons_of_mem _ hfault)
  | code parts value digits =>
      rcases Option.map_eq_some_iff.mp h with ⟨d, _, hd⟩
      split_ifs at hd
      · cases hd
        exact hnext (List.mem_cons_of_mem _ hfault)
      · cases hd
        exact hnext hfault

theorem fault_mem_of_fault (h : scan.fault = some (found, next)) : .fault ∈ next.parts := by
  cases scan with
  | text parts =>
      cases h
      exact List.mem_cons_self
  | _ => cases h

/-- A piece after which no fault is held, and which closed no text without characters, is
    a character, and no fault was held before it. -/
theorem fault_not_mem_of_piece {piece : Utf8.Piece} (h : scan.piece piece = some (found, next))
    (hfound : .text none ∉ found) (hnext : .fault ∉ next.parts) :
    .fault ∉ scan.parts ∧ ∃ c, piece = .char c := by
  cases piece with
  | char c => exact ⟨fault_not_mem_of_step h hfound hnext, c, rfl⟩
  | invalid size => exact absurd (fault_mem_of_fault h) hnext
  | incomplete size => exact absurd (fault_mem_of_fault h) hnext

theorem fault_not_mem_of_finish (h : scan.finish = some found) : .fault ∉ scan.parts := by
  cases scan with
  | between => exact List.not_mem_nil
  | number n stage => exact List.not_mem_nil
  | _ => cases h

/-- All pieces are characters if every text in the tokens has its own. -/
theorem map_char_of_tokensOfPieces {pieces : List Utf8.Piece} {tokens : List Token}
    (h : tokensOfPieces scan pieces = some tokens) (htokens : .text none ∉ tokens) :
    .fault ∉ scan.parts ∧ ∃ cs : List Char, pieces = cs.map .char := by
  induction pieces generalizing scan tokens with
  | nil => exact ⟨fault_not_mem_of_finish h, [], rfl⟩
  | cons piece rest ih =>
      rw [tokensOfPieces] at h
      cases hpiece : scan.piece piece with
      | none =>
          rw [hpiece] at h
          cases h
      | some taken =>
          rcases taken with ⟨found, next⟩
          rw [hpiece] at h
          rcases Option.map_eq_some_iff.mp h with ⟨more, hmore, rfl⟩
          rw [List.mem_append, not_or] at htokens
          rcases ih hmore htokens.2 with ⟨hnext, cs, rfl⟩
          rcases fault_not_mem_of_piece hpiece htokens.1 hnext with ⟨hscan, c, rfl⟩
          exact ⟨hscan, c :: cs, rfl⟩

end

/-- A value whose texts all have their characters is read of the bytes of a text that
    spells it, and of no others. -/
theorem readBytes?_iff_spells {bytes : Bytes} {value : Json} (hvalue : .text none ∉ value.tokens) :
    readBytes? bytes = some value ↔ ∃ text, bytes = Utf8.encode text ∧ Spells text value := by
  constructor
  · intro h
    rcases Option.bind_eq_some_iff.mp h with ⟨tokens, hscan, htokens⟩
    rw [ofTokens?_iff] at htokens
    rw [← htokens] at hvalue
    rcases map_char_of_tokensOfPieces hscan hvalue with ⟨_, cs, hpieces⟩
    have hbytes : bytes = Utf8.encode (String.ofList cs) := by
      rw [Utf8.encode, String.toList_ofList, Utf8.encodeChars_of_decode hpieces]
    rw [hbytes, readBytes?_of_text? (Utf8.text?_encode _), read?_iff_spells] at h
    exact ⟨_, hbytes, h⟩
  · rintro ⟨text, rfl, hspells⟩
    rw [readBytes?_of_text? (Utf8.text?_encode text), read?_iff_spells]
    exact hspells

-- A fault costs a text its characters and nothing else.
example : readBytes? [0x5B, 0x22, 0xFF, 0x22, 0x2C, 0x22, 0x61, 0x22, 0x5D] =
    some (.array [.text none, .text (some "a")]) := by rfl

end Json

end BatchRun
