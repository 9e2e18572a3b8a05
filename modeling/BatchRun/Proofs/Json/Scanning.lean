import BatchRun.Proofs.Json.Spelling
import BatchRun.Proofs.Text.Ascii

/-!
# Scanning Spelled JSON

A text is read as the value that it spells.

The scanner follows every spelling of a token to its end and completes the token there. A
number has no end of its own: it ends where nothing can continue it. No token but another
number begins with a character that can, and no value has two numbers beside each other,
since there is a comma or a colon between any two values. So what is spelled is scanned as
it was spelled, and from its tokens the value is read.

## Main definitions

* `Json.continuesNumber`: What a number might go on with.
* `Json.apart`: Tokens of which no two numbers are beside each other.

## Theorems

* `Json.tokensFrom_number`, `Json.tokensFrom_parts`, `Json.tokensFrom_word`: A spelled
  number, a spelled text and a word.
* `Json.tokensFrom_spelled`: A spelled token is scanned.
* `Json.tokensFrom_of_laid`: So are spelled tokens with blanks around them.
* `Json.apart_tokens`: The tokens of a value are apart.
* `Json.read?_iff_spells`: A text is read as what it spells.
-/

namespace BatchRun

namespace Json

/-- A character that completes a token. -/
theorem tokensFrom_token {scan : Scan} {c : Char} {token : Token}
    (h : scan.step c = some ([token], .between)) (rest : List Char) :
    tokensFrom scan (c :: rest) = (tokensFrom .between rest).map (token :: ·) := by
  rw [tokensFrom, h]
  rfl

theorem toNat_of_isDigit {c : Char} (h : isDigit c = true) : c.toNat < 0x80 := by
  rw [isDigit, Bool.and_eq_true, decide_eq_true_eq, decide_eq_true_eq] at h
  exact Nat.lt_of_le_of_lt (UInt32.le_iff_toNat_le.mp h.2) (by decide)

/-- A character that goes on with a number that might end before it. -/
def continuesNumber (c : Char) : Bool := isDigit c || c = '.' || c = 'e' || c = 'E'

section Numbers

variable {n : Number} {stage : Stage} {negative : Bool} {whole rest : List Char}
  {fraction : Option (List Char)}

/-- A number ends where nothing can continue it. -/
theorem extend_eq_none {c : Char} (hend : stage.mayEnd = true) (hc : continuesNumber c = false) :
    n.extend stage c = none := by
  have hdigit : ('0' ≤ c && c ≤ '9') = isDigit c := rfl
  simp only [continuesNumber, Bool.or_eq_false_iff, decide_eq_false_iff_not] at hc
  rcases hc with ⟨⟨⟨hc, hpoint⟩, hsmall⟩, hlarge⟩
  cases stage with
  | zero => simp only [Number.extend, hpoint, hsmall, hlarge, decide_false, Bool.or_self,
      Bool.false_eq_true, if_false]
  | whole => simp only [Number.extend, hdigit, hc, hpoint, hsmall, hlarge, decide_false,
      Bool.or_self, Bool.false_eq_true, if_false]
  | fraction => simp only [Number.extend, hdigit, hc, hsmall, hlarge, decide_false, Bool.or_self,
      Bool.false_eq_true, if_false]
  | exponent => simp only [Number.extend, hdigit, hc, Bool.false_eq_true, if_false]
  | sign => exact absurd hend Bool.false_ne_true
  | point => exact absurd hend Bool.false_ne_true
  | mark => exact absurd hend Bool.false_ne_true
  | markSign => exact absurd hend Bool.false_ne_true

/-- Behind a number that may end the scanner goes on between two tokens. -/
theorem tokensFrom_ended (hend : stage.mayEnd = true)
    (hrest : ∀ c, rest.head? = some c → continuesNumber c = false) :
    tokensFrom (.number n stage) rest = (tokensFrom .between rest).map (.number n :: ·) := by
  cases rest with
  | nil => rw [tokensFrom, Scan.finish, if_pos hend]; rfl
  | cons c rest =>
      have hstep : Scan.step (.number n stage) c =
          (Scan.start c).map fun pair => (.number n :: pair.1, pair.2) := by
        simp only [Scan.step, extend_eq_none hend (hrest c rfl), hend, if_true]
      rw [tokensFrom, tokensFrom, hstep, Scan.step]
      cases Scan.start c with
      | none => rfl
      | some pair =>
          simp only [Option.map_some, Option.map_map]
          rfl

/-- Digits go on with a part of a number to which each of them is added. -/
theorem tokensFrom_digits (put : List Char → Number)
    (hput : ∀ read c, isDigit c = true →
      (put read).extend stage c = some (put (read ++ [c]), stage))
    {digits : List Char} (hdigits : ∀ d ∈ digits, isDigit d = true) (read rest : List Char) :
    tokensFrom (.number (put read) stage) (digits ++ rest) =
      tokensFrom (.number (put (read ++ digits)) stage) rest := by
  induction digits generalizing read with
  | nil => rw [List.nil_append, List.append_nil]
  | cons d digits ih =>
      rw [List.forall_mem_cons] at hdigits
      have hstep : Scan.step (.number (put read) stage) d =
          some ([], .number (put (read ++ [d])) stage) := by
        rw [Scan.step, hput read d hdigits.1]
      rw [List.cons_append, tokensFrom_cons _ hstep, ih hdigits.2, List.append_assoc,
        List.singleton_append]

/-- A number begins with its sign or with a digit. -/
theorem tokensFrom_sign (negative : Bool) {d : Char} (hd : isDigit d = true) (rest : List Char) :
    tokensFrom .between (signText negative ++ d :: rest) =
      tokensFrom (.number ⟨negative, [], none, none⟩ .sign) (d :: rest) := by
  cases negative with
  | true => exact tokensFrom_cons _ rfl _
  | false =>
      have hstart : isDigit d = true →
          Scan.start d = Scan.step (.number ⟨false, [], none, none⟩ .sign) d :=
        forall_ascii d (toNat_of_isDigit hd) (by decide +kernel)
      rw [signText, if_neg Bool.false_ne_true, List.nil_append, tokensFrom, tokensFrom, Scan.step,
        hstart hd]

/-- The digits of a number before its point. -/
theorem tokensFrom_whole (h : IsWhole whole) (rest : List Char) :
    ∃ stage, (stage = .zero ∨ stage = .whole) ∧
      tokensFrom .between (signText negative ++ (whole ++ rest)) =
        tokensFrom (.number ⟨negative, whole, none, none⟩ stage) rest := by
  rcases h with ⟨⟨hne, hdigits⟩, hzero⟩
  cases whole with
  | nil => exact absurd rfl hne
  | cons d more =>
      rw [List.forall_mem_cons] at hdigits
      have hdigit : ('0' ≤ d && d ≤ '9') = true := hdigits.1
      rw [List.cons_append, tokensFrom_sign negative hdigits.1]
      -- A zero in front is the only digit, and no more digits are taken behind it.
      by_cases hd : d = '0'
      · have hmore : more = [] := (List.cons.inj (hzero (congrArg some hd))).2
        refine ⟨.zero, .inl rfl, ?_⟩
        rw [hd, hmore]
        exact tokensFrom_cons _ rfl rest
      · refine ⟨.whole, .inr rfl, ?_⟩
        have hstep : Scan.step (.number ⟨negative, [], none, none⟩ .sign) d =
            some ([], .number ⟨negative, [d], none, none⟩ .whole) := by
          simp only [Scan.step, Number.extend, hdigit, if_true, hd, if_false, List.nil_append]
        rw [tokensFrom_cons _ hstep]
        refine tokensFrom_digits (fun read => ⟨negative, read, none, none⟩) ?_ hdigits.2 [d] rest
        intro read c hc
        have hc' : ('0' ≤ c && c ≤ '9') = true := hc
        simp only [Number.extend, hc', if_true]

/-- The digits behind the point. -/
theorem tokensFrom_fraction (hfraction : ∀ digits, fraction = some digits → IsDigits digits)
    (hstage : stage = .zero ∨ stage = .whole) (rest : List Char) :
    ∃ reached, (reached = .zero ∨ reached = .whole ∨ reached = .fraction) ∧
      tokensFrom (.number ⟨negative, whole, none, none⟩ stage) (fractionText fraction ++ rest) =
        tokensFrom (.number ⟨negative, whole, fraction, none⟩ reached) rest := by
  cases fraction with
  | none => exact ⟨stage, hstage.imp_right .inl, rfl⟩
  | some digits =>
      rcases hfraction digits rfl with ⟨hne, hdigits⟩
      cases digits with
      | nil => exact absurd rfl hne
      | cons d more =>
          rw [List.forall_mem_cons] at hdigits
          have hdigit : ('0' ≤ d && d ≤ '9') = true := hdigits.1
          have hpoint : Scan.step (.number ⟨negative, whole, none, none⟩ stage) '.' =
              some ([], .number ⟨negative, whole, none, none⟩ .point) := by
            rcases hstage with rfl | rfl
            · rfl
            · rfl
          have hfirst : Scan.step (.number ⟨negative, whole, none, none⟩ .point) d =
              some ([], .number ⟨negative, whole, some [d], none⟩ .fraction) := by
            simp only [Scan.step, Number.extend, hdigit, if_true, Option.getD_none, List.nil_append]
          refine ⟨.fraction, .inr (.inr rfl), ?_⟩
          rw [fractionText, List.cons_append, List.cons_append, tokensFrom_cons _ hpoint,
            tokensFrom_cons _ hfirst]
          refine tokensFrom_digits (fun read => ⟨negative, whole, some read, none⟩) ?_ hdigits.2
            [d] rest
          intro read c hc
          have hc' : ('0' ≤ c && c ≤ '9') = true := hc
          simp only [Number.extend, hc', if_true, Option.getD_some]

/-- The exponent. -/
theorem tokensFrom_exponent {exponent : Option (Bool × List Char)} {lexeme : List Char}
    (h : ExponentSpelled exponent lexeme)
    (hstage : stage = .zero ∨ stage = .whole ∨ stage = .fraction) (rest : List Char) :
    ∃ reached, reached.mayEnd = true ∧
      tokensFrom (.number ⟨negative, whole, fraction, none⟩ stage) (lexeme ++ rest) =
        tokensFrom (.number ⟨negative, whole, fraction, exponent⟩ reached) rest := by
  cases h with
  | absent =>
      refine ⟨stage, ?_, rfl⟩
      rcases hstage with rfl | rfl | rfl
      · rfl
      · rfl
      · rfl
  | @written mark down sign digits hmark hsign hdigits =>
      rcases hdigits with ⟨hne, hdigits⟩
      cases digits with
      | nil => exact absurd rfl hne
      | cons d more =>
          rw [List.forall_mem_cons] at hdigits
          have hdigit : ('0' ≤ d && d ≤ '9') = true := hdigits.1
          let reading (down : Bool) (read : List Char) : Number :=
            ⟨negative, whole, fraction, some (down, read)⟩
          have hletter : Scan.step (.number ⟨negative, whole, fraction, none⟩ stage) mark =
              some ([], .number (reading false []) .mark) := by
            rcases hstage with rfl | rfl | rfl
            all_goals
              rcases hmark with rfl | rfl
              · rfl
              · rfl
          have hfirst : ∀ down stage, stage = .mark ∨ stage = .markSign →
              Scan.step (.number (reading down []) stage) d =
                some ([], .number (reading down [d]) .exponent) := by
            rintro down stage (rfl | rfl)
            all_goals simp only [Scan.step, Number.extend, hdigit, if_true, reading,
              Option.map_some, List.nil_append]
          have hrest : tokensFrom (.number (reading down [d]) .exponent) (more ++ rest) =
              tokensFrom (.number (reading down (d :: more)) .exponent) rest := by
            refine tokensFrom_digits (reading down) ?_ hdigits.2 [d] rest
            intro read c hc
            have hc' : ('0' ≤ c && c ≤ '9') = true := hc
            simp only [Number.extend, hc', if_true, reading, Option.map_some]
          refine ⟨.exponent, rfl, ?_⟩
          rw [List.cons_append, List.append_assoc, List.cons_append, tokensFrom_cons _ hletter]
          cases hsign with
          | none =>
              rw [List.nil_append, tokensFrom_cons _ (hfirst false .mark (.inl rfl))]
              exact hrest
          | plus =>
              rw [List.singleton_append, tokensFrom_cons (.number (reading false []) .markSign) rfl,
                tokensFrom_cons _ (hfirst false .markSign (.inr rfl))]
              exact hrest
          | minus =>
              rw [List.singleton_append, tokensFrom_cons (.number (reading true []) .markSign) rfl,
                tokensFrom_cons _ (hfirst true .markSign (.inr rfl))]
              exact hrest

/-- A spelled number is scanned up to a place where it may end. -/
theorem tokensFrom_number {lexeme : List Char} (h : n.Spelled lexeme) (rest : List Char) :
    ∃ stage, stage.mayEnd = true ∧
      tokensFrom .between (lexeme ++ rest) = tokensFrom (.number n stage) rest := by
  -- Its three parts one after the other, each from the stage that the last one has reached.
  rcases h with ⟨body, exponent, hbody, hexponent, rfl⟩
  rcases n with ⟨negative, whole, fraction, power⟩
  rcases tokensFrom_whole hbody.whole (fractionText fraction ++ (exponent ++ rest)) with
    ⟨first, hfirst, hwhole⟩
  rcases tokensFrom_fraction hbody.fraction hfirst (exponent ++ rest) with
    ⟨second, hsecond, hfraction⟩
  rcases tokensFrom_exponent hexponent hsecond rest with ⟨last, hlast, hpower⟩
  refine ⟨last, hlast, ?_⟩
  rw [← hpower, ← hfraction, ← hwhole, hbody.eq]
  simp only [List.append_assoc]

end Numbers

section Texts

variable {parts : List TextPart} {part : TextPart} {lexeme body : List Char}

/-- Four digits of a code. -/
theorem tokensFrom_hex (parts : List TextPart) {digits : List Char} {value count bits : Nat}
    (hne : digits ≠ []) (hcount : count + digits.length = 4)
    (h : digits.foldlM (fun value c => (Hex.digitValue c).map (value * 16 + ·)) value = some bits)
    (rest : List Char) :
    tokensFrom (.code parts value count) (digits ++ rest) =
      tokensFrom (.text (.escaped bits :: parts)) rest := by
  induction digits generalizing value count with
  | nil => exact absurd rfl hne
  | cons c digits ih =>
      rw [List.foldlM_cons] at h
      rcases Option.bind_eq_some_iff.mp h with ⟨next, hnext, h⟩
      rcases Option.map_eq_some_iff.mp hnext with ⟨d, hd, rfl⟩
      rw [List.length_cons] at hcount
      cases digits with
      | nil =>
          have hlast : count = 3 := by
            rw [List.length_nil] at hcount
            omega
          refine tokensFrom_cons _ ?_ rest
          rw [Scan.step, hd, Option.map_some, if_pos hlast, ← Option.some.inj h]
      | cons next more =>
          have hmore : count ≠ 3 := by
            rw [List.length_cons] at hcount
            omega
          have hstep : Scan.step (.code parts value count) c =
              some ([], .code parts (value * 16 + d) (count + 1)) := by
            rw [Scan.step, hd, Option.map_some, if_neg hmore]
          rw [List.cons_append, tokensFrom_cons _ hstep]
          exact ih (List.cons_ne_nil _ _) (by omega) h

/-- A spelled part of a text is scanned as the part. -/
theorem tokensFrom_part (h : part.Spelled lexeme) (parts : List TextPart) (rest : List Char) :
    tokensFrom (.text parts) (lexeme ++ rest) = tokensFrom (.text (part :: parts)) rest := by
  cases h with
  | plain hquote hback hsolid =>
      refine tokensFrom_cons _ ?_ rest
      rw [Scan.step, if_neg hquote, if_neg hback, if_neg (Nat.not_lt.mpr hsolid)]
  | @letter letter c hletter =>
      have hcode : letter ≠ 'u' := by
        rintro rfl
        have hnone : escapedChar 'u' = none := by decide
        rw [hnone] at hletter
        cases hletter
      have hstep : Scan.step (.escape parts) letter = some ([], .text (.char c :: parts)) := by
        rw [Scan.step, if_neg hcode, hletter]
        rfl
      rw [List.cons_append, List.singleton_append, tokensFrom_cons (.escape parts) rfl,
        tokensFrom_cons _ hstep]
  | @code digits bits hlength hvalue =>
      have hne : digits ≠ [] := List.ne_nil_of_length_pos (by omega)
      rw [List.cons_append, List.cons_append, tokensFrom_cons (.escape parts) rfl,
        tokensFrom_cons (.code parts 0 0) rfl, tokensFrom_hex parts hne (by omega) hvalue]

theorem tokensFrom_parts (h : PartsSpelled parts body) (read : List TextPart)
    (rest : List Char) :
    tokensFrom (.text read) (body ++ rest) = tokensFrom (.text (parts.reverse ++ read)) rest := by
  induction h generalizing read with
  | nil => rfl
  | cons hpart _ ih =>
      rw [List.append_assoc, tokensFrom_part hpart, ih, List.reverse_cons, List.append_assoc,
        List.singleton_append]

end Texts

/-- The rest of a word is scanned letter by letter, and the last letter completes it. -/
theorem tokensFrom_word (token : Token) {left : List Char} (hne : left ≠ []) (rest : List Char) :
    tokensFrom (.word left token) (left ++ rest) = (tokensFrom .between rest).map (token :: ·) := by
  induction left with
  | nil => exact absurd rfl hne
  | cons c left ih =>
      cases left with
      | nil =>
          have hlast : Scan.step (.word [c] token) c = some ([token], .between) := if_pos rfl
          exact tokensFrom_token hlast rest
      | cons next more =>
          have hstep : Scan.step (.word (c :: next :: more) token) c =
              some ([], .word (next :: more) token) := if_pos rfl
          rw [List.cons_append, tokensFrom_cons _ hstep]
          exact ih (List.cons_ne_nil _ _)

/-- A token with one spelling is scanned from it. -/
theorem tokensFrom_fixed {token : Token} {lexeme : List Char} (h : token.fixed? = some lexeme)
    (rest : List Char) :
    tokensFrom .between (lexeme ++ rest) = (tokensFrom .between rest).map (token :: ·) := by
  -- The first letter of a word tells which word it is.
  have hword : ∀ {c left}, Scan.step .between c = some ([], .word left token) → left ≠ [] →
      tokensFrom .between (c :: left ++ rest) = (tokensFrom .between rest).map (token :: ·) :=
    fun hstep hne => (tokensFrom_cons _ hstep _).trans (tokensFrom_word token hne rest)
  cases token with
  | arrayStart => cases h; exact tokensFrom_token rfl rest
  | arrayEnd => cases h; exact tokensFrom_token rfl rest
  | objectStart => cases h; exact tokensFrom_token rfl rest
  | objectEnd => cases h; exact tokensFrom_token rfl rest
  | colon => cases h; exact tokensFrom_token rfl rest
  | comma => cases h; exact tokensFrom_token rfl rest
  | null => cases h; exact hword rfl (List.cons_ne_nil _ _)
  | bool value =>
      cases value with
      | true => cases h; exact hword rfl (List.cons_ne_nil _ _)
      | false => cases h; exact hword rfl (List.cons_ne_nil _ _)
  | number n => cases h
  | text value => cases h

/-- A spelled token is scanned as the token, if nothing behind a number continues it. -/
theorem tokensFrom_spelled {token : Token} {lexeme rest : List Char} (h : token.Spelled lexeme)
    (hrest : token.isNumber = true → ∀ c, rest.head? = some c → continuesNumber c = false) :
    tokensFrom .between (lexeme ++ rest) = (tokensFrom .between rest).map (token :: ·) := by
  cases h with
  | fixed hfixed => exact tokensFrom_fixed hfixed rest
  | number hnumber =>
      rcases tokensFrom_number hnumber rest with ⟨stage, hend, hnumber⟩
      rw [hnumber, tokensFrom_ended hend (hrest rfl)]
  | @text parts body hparts =>
      have hclose : Scan.step (.text parts.reverse) '"' =
          some ([.text ((characters? parts).map String.ofList)], .between) := by
        rw [Scan.step, if_pos rfl, List.reverse_reverse]
      rw [List.cons_append, List.append_assoc, List.singleton_append,
        tokensFrom_cons (.text []) rfl, tokensFrom_parts hparts, List.append_nil,
        tokensFrom_token hclose]

/-- Whether some tokens begin with a number. -/
def beginsNumber : List Token → Bool
  | [] => false
  | token :: _ => token.isNumber

/-- Whether no two numbers are beside each other. -/
def apart : List Token → Bool
  | [] => true
  | token :: rest => !(token.isNumber && beginsNumber rest) && apart rest

/-- No token but a number begins with what continues a number. -/
theorem head?_of_spelled {token : Token} {lexeme rest : List Char} (h : token.Spelled lexeme)
    (hother : token.isNumber = false) {c : Char} (hc : (lexeme ++ rest).head? = some c) :
    continuesNumber c = false := by
  cases h with
  | fixed hfixed =>
      cases token with
      | bool value =>
          cases value with
          | true => cases hfixed; cases hc; decide
          | false => cases hfixed; cases hc; decide
      | number n => cases hfixed
      | text value => cases hfixed
      | _ => cases hfixed; cases hc; decide
  | number _ => exact absurd hother Bool.false_ne_true.symm
  | text _ => cases hc; decide

theorem head?_of_laid {tokens : List Token} {text : List Char} (h : Laid tokens text)
    (hbegins : beginsNumber tokens = false) {c : Char} (hc : text.head? = some c) :
    continuesNumber c = false := by
  cases h with
  | nil => cases hc
  | blank hblank _ =>
      cases hc
      simp only [isBlank, Bool.or_eq_true, decide_eq_true_eq] at hblank
      rcases hblank with ((rfl | rfl) | rfl) | rfl
      all_goals decide
  | token htoken _ => exact head?_of_spelled htoken hbegins hc

/-- Spelled tokens with blanks around them are scanned as the tokens. -/
theorem tokensFrom_of_laid {tokens : List Token} {text : List Char} (h : Laid tokens text)
    (hapart : apart tokens = true) : tokensFrom .between text = some tokens := by
  induction h with
  | nil => rfl
  | @blank tokens c text hblank _ ih =>
      have hstep : Scan.step .between c = some ([], .between) := if_pos hblank
      rw [tokensFrom_cons _ hstep, ih hapart]
  | @token token tokens lexeme text htoken hlaid ih =>
      -- Behind a number comes another token, and that begins with something else.
      rw [apart, Bool.and_eq_true, Bool.not_eq_true'] at hapart
      rw [tokensFrom_spelled htoken, ih hapart.2, Option.map_some]
      intro hnumber c hc
      rw [hnumber, Bool.true_and] at hapart
      exact head?_of_laid hlaid hapart.1 hc

mutual

/-- In the tokens of a value no two numbers are beside each other. -/
theorem apart_tokens (value : Json) {rest : List Token} (hbegins : beginsNumber rest = false)
    (hrest : apart rest = true) : apart (value.tokens ++ rest) = true := by
  match value with
  | .null => exact hrest
  | .bool value => exact hrest
  | .number n =>
      rw [tokens, List.singleton_append, apart, hbegins, Bool.and_false, hrest]
      rfl
  | .text value => exact hrest
  | .array items =>
      rw [tokens, List.cons_append, List.append_assoc]
      exact apart_itemTokens items rfl hrest
  | .object members =>
      rw [tokens, List.cons_append, List.append_assoc]
      exact apart_memberTokens members rfl hrest

theorem apart_itemTokens (items : List Json) {rest : List Token}
    (hbegins : beginsNumber rest = false) (hrest : apart rest = true) :
    apart (itemTokens items ++ rest) = true := by
  match items with
  | [] => exact hrest
  | [item] => exact apart_tokens item hbegins hrest
  | item :: next :: more =>
      rw [itemTokens_cons, List.append_assoc, List.cons_append]
      exact apart_tokens item rfl (apart_itemTokens (next :: more) hbegins hrest)

theorem apart_memberTokens (members : List (Option String × Json)) {rest : List Token}
    (hbegins : beginsNumber rest = false) (hrest : apart rest = true) :
    apart (memberTokens members ++ rest) = true := by
  match members with
  | [] => exact hrest
  | [(name, value)] =>
      rw [memberTokens, pairTokens, List.cons_append, List.cons_append]
      exact apart_tokens value hbegins hrest
  | (name, value) :: next :: more =>
      rw [memberTokens_cons, pairTokens, List.append_assoc, List.cons_append, List.cons_append,
        List.cons_append]
      exact apart_tokens value rfl (apart_memberTokens (next :: more) hbegins hrest)

end

/-- A text is read as the value that it spells, and not read if it spells none. -/
theorem read?_iff_spells {text : String} {value : Json} :
    read? text = some value ↔ Spells text value := by
  constructor
  · intro h
    rcases Option.bind_eq_some_iff.mp h with ⟨tokens, htokens, hvalue⟩
    rw [Spells, ← ofTokens?_iff.mp hvalue]
    exact (laid_of_tokensFrom text.toList).1 tokens htokens
  · intro h
    have happart := @apart_tokens value [] rfl rfl
    rw [List.append_nil] at happart
    rw [read?, tokens?, tokensFrom_of_laid h happart]
    exact ofTokens?_iff.mpr rfl

end Json

end BatchRun
