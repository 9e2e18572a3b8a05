import BatchRun.Proofs.Json.Grammar
import BatchRun.Proofs.Json.Text
import Mathlib.Logic.Basic

/-!
# Spellings of JSON Values

Which texts spell a value, and that nothing else is scanned.

A text spells a value if it has the tokens of the value one after the other, each
spelled in one of its ways, with any blanks around them. Brackets, marks and words have
one spelling. A number is spelled by its digits, with either letter before the exponent
and a plus sign there or none. A text is spelled between quotes, each character by
itself, by a letter behind a backslash, or by a code.

The scanner holds the part of a token that it has read. What it holds is the beginning of
a spelling, which each character continues, and a token that it completes is spelled by
what it has read. So the tokens of a text are spelled in it, with nothing but blanks
between them.

## Main definitions

* `Json.Token.Spelled`: The spellings of a token.
* `Json.Laid`: Spelled tokens with blanks around them.
* `Json.Spells`: A text that spells a value.
* `Json.Number.Reached`, `Json.Scan.Held`: What the scanner has read of a token.

## Theorems

* `Json.Number.reached_extend`: A number that goes on.
* `Json.Scan.starts_of_start`, `Json.Scan.held_step`: One more character.
* `Json.laid_of_tokensFrom`: Tokens that were scanned were spelled.
-/

namespace BatchRun

namespace Json

/-! ### The grammar -/

/-- One of the four blanks. -/
def isBlank (c : Char) : Bool := c = ' ' || c = '\t' || c = '\n' || c = '\r'

/-- A decimal digit. -/
def isDigit (c : Char) : Bool := '0' ≤ c && c ≤ '9'

/-- One digit or more. -/
def IsDigits (digits : List Char) : Prop := digits ≠ [] ∧ ∀ d ∈ digits, isDigit d = true

/-- Digits without a zero in front, unless it is the only one. -/
def IsWhole (digits : List Char) : Prop :=
  IsDigits digits ∧ (digits.head? = some '0' → digits = ['0'])

/-- The sign of a number, which is only written if it is negative. -/
def signText (negative : Bool) : List Char := if negative then ['-'] else []

/-- The digits behind the point, if there are any. -/
def fractionText : Option (List Char) → List Char
  | none => []
  | some digits => '.' :: digits

/-- The part of a number before its exponent. -/
structure Number.HasBody (n : Number) (body : List Char) : Prop where
  whole : IsWhole n.whole
  fraction : ∀ digits, n.fraction = some digits → IsDigits digits
  eq : body = signText n.negative ++ (n.whole ++ fractionText n.fraction)

/-- The sign of an exponent. -/
inductive SignSpelled : Bool → List Char → Prop
  | none : SignSpelled false []
  | plus : SignSpelled false ['+']
  | minus : SignSpelled true ['-']

/-- The exponent of a number, behind a letter. -/
inductive ExponentSpelled : Option (Bool × List Char) → List Char → Prop
  | absent : ExponentSpelled none []
  | written {mark : Char} {down : Bool} {sign digits : List Char} (hmark : mark = 'e' ∨ mark = 'E')
      (hsign : SignSpelled down sign) (hdigits : IsDigits digits) :
      ExponentSpelled (some (down, digits)) (mark :: (sign ++ digits))

/-- The spellings of a number. -/
def Number.Spelled (n : Number) (lexeme : List Char) : Prop :=
  ∃ body exponent, n.HasBody body ∧ ExponentSpelled n.exponent exponent ∧ lexeme = body ++ exponent

/-- The value of hexadecimal digits. -/
def hexValue (digits : List Char) : Option Nat :=
  digits.foldlM (fun value c => (Hex.digitValue c).map (value * 16 + ·)) 0

/-- The spellings of a part of a text. -/
inductive TextPart.Spelled : TextPart → List Char → Prop
  | plain {c : Char} (hquote : c ≠ '"') (hback : c ≠ '\\') (hsolid : 0x20 ≤ c.toNat) :
      Spelled (.char c) [c]
  | letter {letter c : Char} (hletter : escapedChar letter = some c) :
      Spelled (.char c) ['\\', letter]
  | code {digits : List Char} {bits : Nat} (hlength : digits.length = 4)
      (hvalue : hexValue digits = some bits) : Spelled (.escaped bits) ('\\' :: 'u' :: digits)

/-- Parts of a text that are spelled one after the other. -/
inductive PartsSpelled : List TextPart → List Char → Prop
  | nil : PartsSpelled [] []
  | cons {part : TextPart} {parts : List TextPart} {lexeme body : List Char}
      (hpart : part.Spelled lexeme) (hparts : PartsSpelled parts body) :
      PartsSpelled (part :: parts) (lexeme ++ body)

/-- The spelling of a token that has only one. -/
def Token.fixed? : Token → Option (List Char)
  | arrayStart => some ['[']
  | arrayEnd => some [']']
  | objectStart => some ['\x7b']
  | objectEnd => some ['\x7d']
  | colon => some [':']
  | comma => some [',']
  | null => some ['n', 'u', 'l', 'l']
  | bool true => some ['t', 'r', 'u', 'e']
  | bool false => some ['f', 'a', 'l', 's', 'e']
  | number _ => none
  | text _ => none

/-- Whether a token is a number. -/
def Token.isNumber : Token → Bool
  | number _ => true
  | _ => false

/-- The spellings of a token. -/
inductive Token.Spelled : Token → List Char → Prop
  | fixed {token : Token} {lexeme : List Char} (h : token.fixed? = some lexeme) :
      Spelled token lexeme
  | number {n : Number} {lexeme : List Char} (h : n.Spelled lexeme) : Spelled (.number n) lexeme
  | text {parts : List TextPart} {body : List Char} (h : PartsSpelled parts body) :
      Spelled (.text ((characters? parts).map String.ofList)) ('"' :: (body ++ ['"']))

/-- Spelled tokens, one after the other, with any blanks around them. -/
inductive Laid : List Token → List Char → Prop
  | nil : Laid [] []
  | blank {tokens : List Token} {c : Char} {text : List Char} (hblank : isBlank c = true)
      (h : Laid tokens text) : Laid tokens (c :: text)
  | token {token : Token} {tokens : List Token} {lexeme text : List Char}
      (htoken : token.Spelled lexeme) (h : Laid tokens text) :
      Laid (token :: tokens) (lexeme ++ text)

/-- A text that spells a value. -/
def Spells (text : String) (value : Json) : Prop := Laid value.tokens text.toList

/-! ### What was scanned was spelled -/

/-- How far a number has been read: up to each of its stages. -/
inductive Number.Reached : Number → Stage → List Char → Prop
  | sign (negative : Bool) : Reached ⟨negative, [], none, none⟩ .sign (signText negative)
  | zero (negative : Bool) :
      Reached ⟨negative, ['0'], none, none⟩ .zero (signText negative ++ ['0'])
  | whole (negative : Bool) {digits : List Char} (h : IsDigits digits)
      (hzero : digits.head? ≠ some '0') :
      Reached ⟨negative, digits, none, none⟩ .whole (signText negative ++ digits)
  | point (negative : Bool) {digits : List Char} (h : IsWhole digits) :
      Reached ⟨negative, digits, none, none⟩ .point (signText negative ++ (digits ++ ['.']))
  | fraction (negative : Bool) {digits more : List Char} (h : IsWhole digits)
      (hmore : IsDigits more) : Reached ⟨negative, digits, some more, none⟩ .fraction
        (signText negative ++ (digits ++ '.' :: more))
  | mark {n : Number} {body : List Char} {mark : Char} (h : n.HasBody body)
      (hmark : mark = 'e' ∨ mark = 'E') (hexponent : n.exponent = some (false, [])) :
      Reached n .mark (body ++ [mark])
  | markSign {n : Number} {body sign : List Char} {mark : Char} {down : Bool} (h : n.HasBody body)
      (hmark : mark = 'e' ∨ mark = 'E') (hsign : SignSpelled down sign)
      (hexponent : n.exponent = some (down, [])) : Reached n .markSign (body ++ mark :: sign)
  | exponent {n : Number} {body exponent : List Char} (h : n.HasBody body)
      (hexponent : ExponentSpelled n.exponent exponent) (hsome : n.exponent.isSome) :
      Reached n .exponent (body ++ exponent)

theorem isDigits_singleton {c : Char} (h : isDigit c = true) : IsDigits [c] :=
  ⟨List.cons_ne_nil _ _, fun d hd => by rw [List.mem_singleton.mp hd]; exact h⟩

theorem IsDigits.append_singleton {digits : List Char} {c : Char} (h : IsDigits digits)
    (hc : isDigit c = true) : IsDigits (digits ++ [c]) := by
  refine ⟨List.append_ne_nil_of_left_ne_nil h.1 _, fun d hd => ?_⟩
  rcases List.mem_append.mp hd with hd | hd
  · exact h.2 d hd
  · rw [List.mem_singleton.mp hd]
    exact hc

theorem isWhole_of_head? {digits : List Char} (h : IsDigits digits)
    (hzero : digits.head? ≠ some '0') : IsWhole digits := ⟨h, fun hhead => absurd hhead hzero⟩

theorem isWhole_zero : IsWhole ['0'] := ⟨isDigits_singleton (by decide), fun _ => rfl⟩

/-- Digits without a zero in front go on with any digit. -/
theorem head?_append_singleton {digits : List Char} (hne : digits ≠ []) (c : Char) :
    (digits ++ [c]).head? = digits.head? := by
  cases digits with
  | nil => exact absurd rfl hne
  | cons d rest => rfl

theorem ExponentSpelled.append_singleton {down : Bool} {digits exponent : List Char} {c : Char}
    (h : ExponentSpelled (some (down, digits)) exponent) (hc : isDigit c = true) :
    ExponentSpelled (some (down, digits ++ [c])) (exponent ++ [c]) := by
  cases h with
  | written hmark hsign hdigits =>
      rw [List.cons_append, List.append_assoc]
      exact .written hmark hsign (hdigits.append_singleton hc)

namespace Number

variable {n after : Number} {stage reached : Stage} {held body : List Char} {c : Char}

theorem HasBody.congr {other : Number} (h : n.HasBody body)
    (hnegative : other.negative = n.negative) (hwhole : other.whole = n.whole)
    (hfraction : other.fraction = n.fraction) :
    other.HasBody body := by
  refine ⟨?_, ?_, ?_⟩
  · rw [hwhole]
    exact h.whole
  · rw [hfraction]
    exact h.fraction
  · rw [hnegative, hwhole, hfraction]
    exact h.eq

/-- Before its exponent a number is its sign, its digits and its fraction. -/
theorem hasBody_of_whole (negative : Bool) {digits : List Char} (h : IsWhole digits)
    {exponent : Option (Bool × List Char)} :
    HasBody ⟨negative, digits, none, exponent⟩ (signText negative ++ digits) := by
  refine ⟨h, fun _ hsome => ?_, ?_⟩
  · exact absurd hsome (by simp only [reduceCtorEq, not_false_eq_true])
  · rw [fractionText, List.append_nil]

theorem hasBody_of_fraction (negative : Bool) {digits more : List Char} (h : IsWhole digits)
    (hmore : IsDigits more) {exponent : Option (Bool × List Char)} :
    HasBody ⟨negative, digits, some more, exponent⟩
      (signText negative ++ (digits ++ '.' :: more)) := by
  refine ⟨h, fun _ hsome => ?_, rfl⟩
  rw [← Option.some.inj hsome]
  exact hmore

/-- Behind its body a number may go on with the letter of an exponent. -/
theorem reached_of_mark (hbody : n.HasBody body)
    (hextend : (if c = 'e' || c = 'E' then
      some ({ n with exponent := some (false, []) }, Stage.mark) else none) =
        some (after, reached)) : after.Reached reached (body ++ [c]) := by
  rcases ite_eq_iff.mp hextend with ⟨hmark, hextend⟩ | ⟨-, hextend⟩
  · cases hextend
    rw [Bool.or_eq_true, decide_eq_true_eq, decide_eq_true_eq] at hmark
    exact .mark (hbody.congr rfl rfl rfl) hmark rfl
  · cases hextend

/-- A number that goes on has been read one character further. -/
theorem reached_extend (h : n.Reached stage held)
    (hextend : n.extend stage c = some (after, reached)) :
    after.Reached reached (held ++ [c]) := by
  -- One case for each stage, and in it one for each character that goes on from there.
  have hdigit : ('0' ≤ c && c ≤ '9') = isDigit c := rfl
  cases h with
  | sign negative =>
      simp only [extend, hdigit, List.nil_append] at hextend
      split at hextend
      · next hc =>
        cases hextend
        split
        · next hzero =>
          rw [hzero]
          exact .zero negative
        · next hzero =>
          exact .whole negative (isDigits_singleton hc) fun hhead =>
            hzero (Option.some.inj hhead)
      · cases hextend
  | zero negative =>
      rw [extend] at hextend
      rcases ite_eq_iff.mp hextend with ⟨hc, hextend⟩ | ⟨-, hextend⟩
      · cases hextend
        rw [hc, List.append_assoc]
        exact .point negative isWhole_zero
      · exact reached_of_mark (hasBody_of_whole negative isWhole_zero) hextend
  | whole negative hdigits hzero =>
      have hwhole := isWhole_of_head? hdigits hzero
      rw [extend] at hextend
      rcases ite_eq_iff.mp hextend with ⟨hc, hextend⟩ | ⟨-, hextend⟩
      · cases hextend
        rw [List.append_assoc]
        exact .whole negative (hdigits.append_singleton hc) fun hhead =>
          hzero ((head?_append_singleton hdigits.1 c).symm.trans hhead)
      rcases ite_eq_iff.mp hextend with ⟨hc, hextend⟩ | ⟨-, hextend⟩
      · cases hextend
        rw [hc, List.append_assoc]
        exact .point negative hwhole
      · exact reached_of_mark (hasBody_of_whole negative hwhole) hextend
  | point negative hwhole =>
      simp only [extend, hdigit] at hextend
      split at hextend
      · next hc =>
        cases hextend
        rw [List.append_assoc, List.append_assoc]
        exact .fraction negative hwhole (isDigits_singleton hc)
      · cases hextend
  | fraction negative hwhole hmore =>
      rw [extend] at hextend
      rcases ite_eq_iff.mp hextend with ⟨hc, hextend⟩ | ⟨-, hextend⟩
      · cases hextend
        rw [List.append_assoc, List.append_assoc]
        exact .fraction negative hwhole (hmore.append_singleton hc)
      · exact reached_of_mark (hasBody_of_fraction negative hwhole hmore) hextend
  | mark hbody hmark hexponent =>
      simp only [extend, hdigit, hexponent, Option.map_some, List.nil_append] at hextend
      split at hextend
      · next hc =>
        cases hextend
        rw [List.append_assoc]
        exact .exponent (hbody.congr rfl rfl rfl)
          (.written hmark .none (isDigits_singleton hc)) rfl
      · split at hextend
        · next hc =>
          cases hextend
          rw [hc, List.append_assoc]
          exact .markSign hbody hmark .plus hexponent
        · split at hextend
          · next hc =>
            cases hextend
            rw [hc, List.append_assoc]
            exact .markSign (hbody.congr rfl rfl rfl) hmark .minus rfl
          · cases hextend
  | markSign hbody hmark hsign hexponent =>
      simp only [extend, hdigit, hexponent, Option.map_some, List.nil_append] at hextend
      split at hextend
      · next hc =>
        cases hextend
        rw [List.append_assoc, List.cons_append]
        exact .exponent (hbody.congr rfl rfl rfl)
          (.written hmark hsign (isDigits_singleton hc)) rfl
      · cases hextend
  | exponent hbody hexponent hsome =>
      rcases Option.isSome_iff_exists.mp hsome with ⟨⟨down, digits⟩, hsome⟩
      rw [hsome] at hexponent
      simp only [extend, hdigit, hsome, Option.map_some] at hextend
      split at hextend
      · next hc =>
        cases hextend
        rw [List.append_assoc]
        exact .exponent (hbody.congr rfl rfl rfl) (hexponent.append_singleton hc) rfl
      · cases hextend

/-- A number that may end is spelled by what was read. -/
theorem spelled_of_reached (h : n.Reached stage held) (hend : stage.mayEnd = true) :
    n.Spelled held := by
  cases h with
  | zero negative =>
      exact ⟨_, _, hasBody_of_whole negative isWhole_zero, .absent, (List.append_nil _).symm⟩
  | whole negative hdigits hzero =>
      exact ⟨_, _, hasBody_of_whole negative (isWhole_of_head? hdigits hzero), .absent,
        (List.append_nil _).symm⟩
  | fraction negative hwhole hmore =>
      exact ⟨_, _, hasBody_of_fraction negative hwhole hmore, .absent, (List.append_nil _).symm⟩
  | exponent hbody hexponent hsome => exact ⟨_, _, hbody, hexponent, rfl⟩
  | sign negative => exact absurd hend Bool.false_ne_true
  | point negative hwhole => exact absurd hend Bool.false_ne_true
  | mark hbody hmark hexponent => exact absurd hend Bool.false_ne_true
  | markSign hbody hmark hsign hexponent => exact absurd hend Bool.false_ne_true

end Number

theorem PartsSpelled.append_singleton {parts : List TextPart} {part : TextPart}
    {body lexeme : List Char} (h : PartsSpelled parts body) (hpart : part.Spelled lexeme) :
    PartsSpelled (parts ++ [part]) (body ++ lexeme) := by
  induction h with
  | nil =>
      have hone := PartsSpelled.cons hpart .nil
      rw [List.append_nil] at hone
      exact hone
  | cons hfirst _ ih =>
      rw [List.append_assoc]
      exact .cons hfirst ih

theorem hexValue_append_singleton {digits : List Char} {value d : Nat} {c : Char}
    (h : hexValue digits = some value) (hc : Hex.digitValue c = some d) :
    hexValue (digits ++ [c]) = some (value * 16 + d) := by
  rw [hexValue, List.foldlM_append, ← hexValue, h]
  simp only [Option.bind_eq_bind, Option.bind_some, List.foldlM_cons, hc, Option.map_some,
    List.foldlM_nil]
  rfl

/-- What the scanner has read of a token that is not complete. -/
inductive Scan.Held : Scan → List Char → Prop
  | word {read left : List Char} {token : Token} (h : token.fixed? = some (read ++ left)) :
      Held (.word left token) read
  | number {n : Number} {stage : Stage} {held : List Char} (h : n.Reached stage held) :
      Held (.number n stage) held
  | text {parts : List TextPart} {body : List Char} (h : PartsSpelled parts.reverse body) :
      Held (.text parts) ('"' :: body)
  | escape {parts : List TextPart} {body : List Char} (h : PartsSpelled parts.reverse body) :
      Held (.escape parts) ('"' :: (body ++ ['\\']))
  | code {parts : List TextPart} {body digits : List Char} {value : Nat}
      (h : PartsSpelled parts.reverse body) (hlength : digits.length < 4)
      (hvalue : hexValue digits = some value) :
      Held (.code parts value digits.length) ('"' :: (body ++ '\\' :: 'u' :: digits))

namespace Scan

variable {scan next : Scan} {held : List Char} {found : List Token} {c : Char}

/-- A character between two tokens, with what it completes and what is held after it: it is
    a blank or a token, or it begins one. -/
inductive Starts (c : Char) : List Token → Scan → Prop
  | blank (h : isBlank c = true) : Starts c [] .between
  | token {token : Token} (h : token.Spelled [c]) : Starts c [token] .between
  | begun {next : Scan} (h : next.Held [c]) : Starts c [] next

theorem starts_of_start (h : start c = some (found, next)) : Starts c found next := by
  have hmark : ∀ {token : Token} {mark}, token.fixed? = some [mark] → c = mark →
      Starts c [token] .between := by
    rintro token mark hfixed rfl
    exact .token (.fixed hfixed)
  have hword : ∀ {token : Token} {letter left}, token.fixed? = some (letter :: left) →
      c = letter → Starts c [] (.word left token) := by
    rintro token letter left hfixed rfl
    exact .begun (.word hfixed)
  rw [start] at h
  rcases ite_eq_iff.mp h with ⟨hblank, hfirst⟩ | ⟨-, h⟩
  · cases hfirst; exact .blank hblank
  rcases ite_eq_iff.mp h with ⟨hc, hfirst⟩ | ⟨-, h⟩
  · cases hfirst; exact hmark rfl hc
  rcases ite_eq_iff.mp h with ⟨hc, hfirst⟩ | ⟨-, h⟩
  · cases hfirst; exact hmark rfl hc
  rcases ite_eq_iff.mp h with ⟨hc, hfirst⟩ | ⟨-, h⟩
  · cases hfirst; exact hmark rfl hc
  rcases ite_eq_iff.mp h with ⟨hc, hfirst⟩ | ⟨-, h⟩
  · cases hfirst; exact hmark rfl hc
  rcases ite_eq_iff.mp h with ⟨hc, hfirst⟩ | ⟨-, h⟩
  · cases hfirst; exact hmark rfl hc
  rcases ite_eq_iff.mp h with ⟨hc, hfirst⟩ | ⟨-, h⟩
  · cases hfirst; exact hmark rfl hc
  rcases ite_eq_iff.mp h with ⟨hc, hfirst⟩ | ⟨-, h⟩
  · cases hfirst; exact hword rfl hc
  rcases ite_eq_iff.mp h with ⟨hc, hfirst⟩ | ⟨-, h⟩
  · cases hfirst; exact hword rfl hc
  rcases ite_eq_iff.mp h with ⟨hc, hfirst⟩ | ⟨-, h⟩
  · cases hfirst; exact hword rfl hc
  rcases ite_eq_iff.mp h with ⟨rfl, hfirst⟩ | ⟨-, h⟩
  · cases hfirst; exact .begun (.text .nil)
  rcases ite_eq_iff.mp h with ⟨rfl, hfirst⟩ | ⟨-, h⟩
  · cases hfirst; exact .begun (.number (.sign true))
  rcases Option.map_eq_some_iff.mp h with ⟨⟨n, stage⟩, hextend, hpair⟩
  cases hpair
  exact .begun (.number (Number.reached_extend (.sign false) hextend))

/-- A character goes on with a token, or completes it, or stands behind a token that is
    complete. -/
theorem held_step (h : scan.Held held) (hstep : scan.step c = some (found, next)) :
    (found = [] ∧ next.Held (held ++ [c])) ∨
      (∃ token, token.Spelled (held ++ [c]) ∧ found = [token] ∧ next = .between) ∨
      ∃ token more, token.Spelled held ∧ found = token :: more ∧ start c = some (more, next) := by
  cases h with
  | @word read left token h =>
      cases left with
      | nil => cases hstep
      | cons expected left =>
          cases left with
          | nil =>
              rcases ite_eq_iff.mp hstep with ⟨rfl, hlast⟩ | ⟨-, hother⟩
              · cases hlast
                exact .inr (.inl ⟨token, .fixed h, rfl, rfl⟩)
              · cases hother
          | cons following left =>
              rcases ite_eq_iff.mp hstep with ⟨rfl, hmore⟩ | ⟨-, hother⟩
              · cases hmore
                refine .inl ⟨rfl, .word ?_⟩
                rw [h, List.append_assoc, List.singleton_append]
              · cases hother
  | number h =>
      -- What does not continue a number stands behind it and is no part of it.
      simp only [step] at hstep
      split at hstep
      · next n stage hextend =>
        cases hstep
        exact .inl ⟨rfl, .number (Number.reached_extend h hextend)⟩
      · split at hstep
        · next hend =>
          rcases Option.map_eq_some_iff.mp hstep with ⟨⟨more, after⟩, hstart, hpair⟩
          cases hpair
          exact .inr (.inr ⟨_, more, .number (Number.spelled_of_reached h hend), rfl, hstart⟩)
        · cases hstep
  | @text parts body h =>
      simp only [step] at hstep
      split at hstep
      · next hquote =>
        cases hstep
        rw [hquote]
        exact .inr (.inl ⟨_, .text h, rfl, rfl⟩)
      · next hquote =>
        split at hstep
        · next hback =>
          cases hstep
          rw [hback]
          exact .inl ⟨rfl, .escape h⟩
        · next hback =>
          split at hstep
          · cases hstep
          · next hsolid =>
            cases hstep
            refine .inl ⟨rfl, .text ?_⟩
            rw [List.reverse_cons]
            exact h.append_singleton (.plain hquote hback (Nat.le_of_not_lt hsolid))
  | @escape parts body h =>
      rcases ite_eq_iff.mp hstep with ⟨rfl, hcode⟩ | ⟨-, hstep⟩
      · cases hcode
        refine .inl ⟨rfl, ?_⟩
        rw [List.cons_append, List.append_assoc, List.singleton_append]
        exact .code h (by decide : ([] : List Char).length < 4) rfl
      · rcases Option.map_eq_some_iff.mp hstep with ⟨letter, hletter, hpair⟩
        cases hpair
        refine .inl ⟨rfl, ?_⟩
        rw [List.cons_append, List.append_assoc, List.singleton_append]
        refine .text ?_
        rw [List.reverse_cons]
        exact h.append_singleton (.letter hletter)
  | @code parts body digits value h hlength hvalue =>
      rcases Option.map_eq_some_iff.mp hstep with ⟨d, hd, hpair⟩
      -- The fourth digit completes the code.
      have hmore := hexValue_append_singleton hvalue hd
      have hcount : (digits ++ [c]).length = digits.length + 1 := List.length_append
      left
      rw [List.cons_append, List.append_assoc, List.cons_append, List.cons_append]
      rcases ite_eq_iff.mp hpair with ⟨hfour, hpair⟩ | ⟨hfour, hpair⟩
      · cases hpair
        refine ⟨rfl, .text ?_⟩
        rw [List.reverse_cons]
        exact h.append_singleton (.code (by omega) hmore)
      · cases hpair
        refine ⟨rfl, ?_⟩
        rw [← hcount]
        exact .code h (by omega) hmore

end Scan

theorem tokensFrom_cons_iff {scan : Scan} {c : Char} {rest : List Char} {tokens : List Token} :
    tokensFrom scan (c :: rest) = some tokens ↔ ∃ found next more,
      scan.step c = some (found, next) ∧ tokensFrom next rest = some more ∧
        tokens = found ++ more := by
  rw [tokensFrom]
  cases hstep : scan.step c with
  | none => simp only [reduceCtorEq, false_and, exists_false]
  | some pair =>
      rcases pair with ⟨found, next⟩
      simp only [Option.map_eq_some_iff, Option.some.injEq, Prod.mk.injEq]
      constructor
      · rintro ⟨more, hmore, rfl⟩
        exact ⟨found, next, more, ⟨rfl, rfl⟩, hmore, rfl⟩
      · rintro ⟨_, _, more, ⟨rfl, rfl⟩, hmore, rfl⟩
        exact ⟨more, hmore, rfl⟩

/-- What was scanned is spelled by the text: between two tokens by all of it, and inside
    a token by what was read of the token and the rest. -/
theorem laid_of_tokensFrom (text : List Char) :
    (∀ tokens, tokensFrom .between text = some tokens → Laid tokens text) ∧
      ∀ scan held tokens, Scan.Held scan held → tokensFrom scan text = some tokens →
        Laid tokens (held ++ text) := by
  -- Both at once, since a character leads into a token or out of one.
  induction text with
  | nil =>
      refine ⟨fun tokens h => ?_, fun scan held tokens hheld h => ?_⟩
      · cases h
        exact .nil
      · cases hheld with
        | number hreached =>
            rcases ite_eq_iff.mp h with ⟨hend, h⟩ | ⟨-, h⟩
            · cases h
              exact .token (.number (Number.spelled_of_reached hreached hend)) .nil
            · cases h
        | word _ => cases h
        | text _ => cases h
        | escape _ => cases h
        | code _ _ _ => cases h
  | cons c rest ih =>
      have hbetween : ∀ tokens, tokensFrom .between (c :: rest) = some tokens →
          Laid tokens (c :: rest) := by
        intro tokens h
        rcases tokensFrom_cons_iff.mp h with ⟨found, next, more, hstep, hmore, rfl⟩
        cases Scan.starts_of_start hstep with
        | blank hblank => exact .blank hblank (ih.1 more hmore)
        | token htoken => exact .token htoken (ih.1 more hmore)
        | begun hheld => exact ih.2 next [c] more hheld hmore
      refine ⟨hbetween, fun scan held tokens hheld h => ?_⟩
      rcases tokensFrom_cons_iff.mp h with ⟨found, next, more, hstep, hmore, rfl⟩
      rcases Scan.held_step hheld hstep with ⟨rfl, hnext⟩ | ⟨token, htoken, rfl, rfl⟩ |
        ⟨token, begun, htoken, rfl, hstart⟩
      · rw [List.append_cons]
        exact ih.2 next _ more hnext hmore
      · rw [List.append_cons]
        exact .token htoken (ih.1 more hmore)
      · -- The token was complete before this character, which is then looked at afresh.
        refine .token htoken (hbetween _ ?_)
        exact tokensFrom_cons_iff.mpr ⟨begun, next, more, hstart, hmore, rfl⟩

end Json

end BatchRun
