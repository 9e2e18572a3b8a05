import BatchRun.Proofs.Text.Lines
import BatchRun.Proofs.Text.Trim
import BatchRun.Proofs.Url.Parse
import BatchRun.Run.Parameters
import Mathlib.Tactic.SplitIfs

/-!
# The Grammar of Durations

Which texts are durations.

A duration is a bare zero, or a sequence of numbers, each with a unit behind it.
Nothing separates the two and nothing separates one pair from the next, so a reader
has to see from the characters alone where a number ends and where a unit does. It
takes as many characters as it can both times. That is right because no unit holds a
digit or a point and no number holds anything else: whatever is written by the grammar
is cut where it was joined.

Each turn of the reader takes a number and a unit off the text and leaves less of it,
or finds a fault. So there are no more turns than characters. A text that is read to
its end may still stand for too long a time, which is no fault of its writing and is
told apart from all others.

## Main definitions

* `Duration.Decimal.Written`: A number as it is written.
* `Duration.Scale.spellings`: The ways to write a unit.
* `Duration.Spelled`: A sequence of numbers with units.
* `Duration.IsDuration`: A text by the grammar.
* `Duration.Fault.IsSyntax`: The faults of a text that is not.
* `Duration.cutTerm`, `Duration.Scans`: One turn of the reader, and all of them.

## Theorems

* `Duration.Decimal.ofText?_eq_some_iff`: A number is read as it was written.
* `Duration.Scale.ofText?_eq_some_iff`: So is a unit.
* `Duration.cutTerm_eq_ok_iff`: What one turn takes.
* `Duration.terms_eq_ok_iff`: What all turns take.
* `Duration.scans_terms`: The turns come to an end.
* `Duration.read_iff_isDuration`: Which texts are read.
-/

namespace BatchRun

namespace Duration

variable {text number unit rest : List Char} {found : List Term}

/-- A number as it is written: digits with a point behind or among them or with none,
    or digits behind a point. -/
inductive Decimal.Written : Decimal → List Char → Prop
  | whole {digits : List Char} (hne : digits ≠ []) (hdigits : ∀ c ∈ digits, c.isDigit = true) :
      Written ⟨digitsValue digits, 0⟩ digits
  | pointed {whole fraction : List Char} (hne : whole ≠ [])
      (hwhole : ∀ c ∈ whole, c.isDigit = true) (hfraction : ∀ c ∈ fraction, c.isDigit = true) :
      Written ⟨digitsValue (whole ++ fraction), fraction.length⟩ (whole ++ '.' :: fraction)
  | fraction {fraction : List Char} (hne : fraction ≠ [])
      (hfraction : ∀ c ∈ fraction, c.isDigit = true) :
      Written ⟨digitsValue fraction, fraction.length⟩ ('.' :: fraction)

/-- The ways to write a unit. -/
def Scale.spellings : Scale → List String
  | nanosecond => ["ns"]
  | microsecond => ["us", "\u00b5s"]
  | millisecond => ["ms"]
  | second => ["s"]
  | minute => ["m"]
  | hour => ["h"]

/-- A sequence of numbers, each with a unit behind it. -/
inductive Spelled : List Char → List Term → Prop
  | nil : Spelled [] []
  | cons {amount : Decimal} {scale : Scale} {number rest : List Char} {unit : String}
      {more : List Term} (hnumber : amount.Written number) (hunit : unit ∈ scale.spellings)
      (hrest : Spelled rest more) :
      Spelled (number ++ (unit.toList ++ rest)) (⟨amount, scale⟩ :: more)

/-- A text by the grammar. -/
def IsDuration (text : List Char) : Prop :=
  text = ['0'] ∨ ∃ found, found ≠ [] ∧ Spelled text found

/-- The fault of a text that is not by the grammar, as it is told. -/
def Fault.IsSyntax (fault : Fault) : Prop :=
  fault.message ∈ ["empty duration string", "missing unit suffix", "expected a number"] ∨
    (∃ number, fault.message = "invalid number '" ++ number ++ "'") ∨
    ∃ unit, fault.message =
      "unsupported unit '" ++ unit ++ "'; expected ns, us, ms, s, m, or h"

/-- One turn of the reader: the term at the front of a text, and the rest. -/
def cutTerm (text : List Char) : Except Fault (Term × List Char) :=
  let number := text.takeWhile isNumeric
  let behind := text.dropWhile isNumeric
  if behind.isEmpty then .error .missingUnit
  else if number.isEmpty then .error .missingNumber
  else match Decimal.ofText? number with
    | none => .error (.badNumber (String.ofList number))
    | some amount =>
      match Scale.ofText? (behind.takeWhile (!isNumeric ·)) with
      | none => .error (.unknownUnit (String.ofList (behind.takeWhile (!isNumeric ·))))
      | some scale => .ok (⟨amount, scale⟩, behind.dropWhile (!isNumeric ·))

/-- The turns of the reader, counted, with what comes of them. They go on for as long
    as there is text and no fault. -/
inductive Scans : Nat → List Char → Except Fault (List Term) → Prop
  | done : Scans 0 [] (.ok [])
  | stop {text : List Char} {fault : Fault} (hne : text ≠ [])
      (hturn : cutTerm text = .error fault) : Scans 1 text (.error fault)
  | turn {text rest : List Char} {term : Term} {turns : Nat} {result : Except Fault (List Term)}
      (hne : text ≠ []) (hturn : cutTerm text = .ok (term, rest))
      (hrest : Scans turns rest result) :
      Scans (turns + 1) text (result.map (term :: ·))

/-- No fault of the writing is told the way a time that is too long is. -/
theorem Fault.IsSyntax.message_ne {fault : Fault} (h : fault.IsSyntax) :
    fault.message ≠ Fault.outOfRange.message := by
  have houtside : Fault.outOfRange.message.toList.head? = some 'd' := rfl
  intro hsame
  rw [IsSyntax, hsame] at h
  rcases h with hfixed | ⟨number, hnumber⟩ | ⟨unit, hunit⟩
  · exact absurd hfixed (by decide)
  · -- The two complaints that quote the text begin with other letters.
    rw [hnumber, String.toList_append, String.toList_append] at houtside
    exact absurd houtside (by simp)
  · rw [hunit, String.toList_append, String.toList_append] at houtside
    exact absurd houtside (by simp)

theorem isNumeric_iff {c : Char} : isNumeric c = true ↔ c.isDigit = true ∨ c = '.' := by
  have hdigit : ('0' ≤ c && c ≤ '9') = c.isDigit := by
    rw [Char.isDigit]
    rfl
  rw [isNumeric, hdigit, Bool.or_eq_true, beq_iff_eq]

theorem isNumeric_of_isDigit {c : Char} (h : c.isDigit = true) : isNumeric c = true :=
  isNumeric_iff.mpr (.inl h)

/-- What is numeric and no point is a digit. -/
theorem isDigit_of_isNumeric {c : Char} (h : isNumeric c = true) (hpoint : c ≠ '.') :
    c.isDigit = true := by
  rcases isNumeric_iff.mp h with hdigit | hc
  · exact hdigit
  · exact absurd hc hpoint

theorem not_mem_of_isDigit (h : ∀ c ∈ text, c.isDigit = true) : '.' ∉ text := by
  intro hmem
  exact absurd (h '.' hmem) (by decide)

/-- A number is not empty, and all of it is digits and points. -/
theorem Decimal.Written.numeric {amount : Decimal} (h : amount.Written number) :
    number ≠ [] ∧ ∀ c ∈ number, isNumeric c = true := by
  cases h with
  | whole hne hdigits => exact ⟨hne, fun c hc => isNumeric_of_isDigit (hdigits c hc)⟩
  | pointed hne hwhole hfraction =>
      refine ⟨by simp only [ne_eq, List.append_eq_nil_iff, reduceCtorEq, and_false,
        not_false_eq_true], fun c hc => ?_⟩
      rw [List.mem_append, List.mem_cons] at hc
      rcases hc with hc | rfl | hc
      · exact isNumeric_of_isDigit (hwhole c hc)
      · rfl
      · exact isNumeric_of_isDigit (hfraction c hc)
  | fraction hne hfraction =>
      refine ⟨List.cons_ne_nil _ _, fun c hc => ?_⟩
      rcases List.mem_cons.mp hc with rfl | hc
      · rfl
      · exact isNumeric_of_isDigit (hfraction c hc)

theorem Decimal.ofText?_of_written {amount : Decimal} (h : amount.Written number) :
    ofText? number = some amount := by
  -- The number of pieces between the points tells the first form from the other two.
  cases h with
  | whole hne hdigits =>
      rw [ofText?, Text.splitOn_of_not_mem (not_mem_of_isDigit hdigits)]
      simp only [List.isEmpty_iff, hne, if_false]
  | pointed hne hwhole hfraction =>
      rw [ofText?, Text.splitOn_append_cons, Text.splitOn_of_not_mem (not_mem_of_isDigit hwhole),
        Text.splitOn_of_not_mem (not_mem_of_isDigit hfraction)]
      simp only [List.singleton_append, Bool.and_eq_true, List.isEmpty_iff, hne, false_and,
        if_false]
  | fraction hne hfraction =>
      rename_i fraction
      have hsplit : Text.splitOn '.' ('.' :: fraction) = [[], fraction] := by
        have hcut := Text.splitOn_append_cons '.' [] fraction
        rw [List.nil_append] at hcut
        rw [hcut, Text.splitOn_of_not_mem (not_mem_of_isDigit hfraction)]
        rfl
      rw [ofText?, hsplit]
      simp only [Bool.and_eq_true, List.isEmpty_iff, hne, and_false, if_false, List.nil_append]

theorem Decimal.written_of_ofText? {amount : Decimal} (hnumeric : ∀ c ∈ number, isNumeric c = true)
    (h : ofText? number = some amount) : amount.Written number := by
  -- The pieces between the points hold digits only.
  have hdigits : ∀ piece ∈ Text.splitOn '.' number, ∀ c ∈ piece, c.isDigit = true := by
    intro piece hpiece c hc
    have hmem := Text.mem_of_mem_splitWhere hpiece hc
    exact isDigit_of_isNumeric (hnumeric c hmem.1) (of_decide_eq_false hmem.2)
  have hjoin := Text.joinWith_splitOn '.' number
  rw [ofText?] at h
  split at h
  · next whole hsplit =>
    rw [hsplit, List.forall_mem_singleton] at hdigits
    rw [hsplit] at hjoin
    split at h
    · exact absurd h (by simp only [reduceCtorEq, not_false_eq_true])
    · next hne =>
      rw [← hjoin, ← Option.some.inj h]
      exact .whole (fun hnil => hne (List.isEmpty_iff.mpr hnil)) hdigits
  · next whole fraction hsplit =>
    rw [hsplit, List.forall_mem_cons, List.forall_mem_singleton] at hdigits
    rw [hsplit] at hjoin
    split at h
    · exact absurd h (by simp only [reduceCtorEq, not_false_eq_true])
    · next hne =>
      rw [← hjoin, ← Option.some.inj h]
      -- Nothing before the point is allowed if there is something behind it.
      by_cases hwhole : whole = []
      · subst hwhole
        exact .fraction (fun hnil => hne (List.isEmpty_iff.mpr hnil)) hdigits.2
      · have hword : Text.joinWith ['.'] [whole, fraction] = whole ++ '.' :: fraction := by
          rw [Text.joinWith, Text.joinWith, List.append_assoc, List.singleton_append]
        rw [hword]
        exact .pointed hwhole hdigits.1 hdigits.2
  · exact absurd h (by simp only [reduceCtorEq, not_false_eq_true])

/-- A number is read as it was written. -/
theorem Decimal.ofText?_eq_some_iff {amount : Decimal} (h : ∀ c ∈ number, isNumeric c = true) :
    ofText? number = some amount ↔ amount.Written number :=
  ⟨written_of_ofText? h, ofText?_of_written⟩

/-- A unit is not empty, and nothing of it could be in a number. -/
theorem Scale.solid_of_mem_spellings {scale : Scale} {unit : String}
    (h : unit ∈ scale.spellings) : unit.toList ≠ [] ∧ ∀ c ∈ unit.toList, isNumeric c = false := by
  have hall : ∀ unit ∈ scale.spellings,
      unit.toList ≠ [] ∧ ∀ c ∈ unit.toList, isNumeric c = false := by
    cases scale <;> simp [spellings, isNumeric]
  exact hall unit h

theorem Scale.ofText?_toList {scale : Scale} {unit : String} (h : unit ∈ scale.spellings) :
    ofText? unit.toList = some scale := by
  have hall : ∀ unit ∈ scale.spellings, ofText? unit.toList = some scale := by
    cases scale <;> decide
  exact hall unit h

theorem Scale.mem_spellings_of_ofText? {scale : Scale} (h : ofText? unit = some scale) :
    String.ofList unit ∈ scale.spellings := by
  unfold ofText? at h
  split_ifs at h with hns hus hms hs hm hh
  · rw [← Option.some.inj h, hns]
    decide
  · rw [← Option.some.inj h]
    rcases hus with rfl | rfl
    · decide
    · decide
  · rw [← Option.some.inj h, hms]
    decide
  · rw [← Option.some.inj h, hs]
    decide
  · rw [← Option.some.inj h, hm]
    decide
  · rw [← Option.some.inj h, hh]
    decide

/-- A unit is read as it was written. -/
theorem Scale.ofText?_eq_some_iff {scale : Scale} :
    ofText? unit = some scale ↔ String.ofList unit ∈ scale.spellings := by
  constructor
  · exact mem_spellings_of_ofText?
  · intro h
    have hread := ofText?_toList h
    rwa [String.toList_ofList] at hread

/-- What one turn takes off a text: a number and a unit, behind which the text ends or
    the next number begins. -/
theorem cutTerm_eq_ok_iff {term : Term} :
    cutTerm text = .ok (term, rest) ↔
      ∃ number, ∃ unit ∈ term.scale.spellings, text = number ++ (unit.toList ++ rest) ∧
        term.amount.Written number ∧ ∀ c, rest.head? = some c → isNumeric c = true := by
  constructor
  · intro h
    have hnumeric : ∀ c ∈ text.takeWhile isNumeric, isNumeric c = true := fun c hc =>
      List.all_eq_true.mp List.all_takeWhile c hc
    simp only [cutTerm] at h
    split_ifs at h with hbehind hnumber
    split at h
    · exact absurd h (by simp only [reduceCtorEq, not_false_eq_true])
    · next amount hamount =>
      split at h
      · exact absurd h (by simp only [reduceCtorEq, not_false_eq_true])
      · next scale hscale =>
        rw [Except.ok.injEq, Prod.mk.injEq] at h
        rcases h with ⟨rfl, rfl⟩
        -- What was taken and what was left is the text again, at both cuts.
        refine ⟨_, _, Scale.ofText?_eq_some_iff.mp hscale, ?_,
          (Decimal.ofText?_eq_some_iff hnumeric).mp hamount, ?_⟩
        · rw [String.toList_ofList, List.takeWhile_append_dropWhile,
            List.takeWhile_append_dropWhile]
        · intro c hc
          have hstop := List.head?_dropWhile_not (fun c => !isNumeric c)
            (text.dropWhile isNumeric)
          rw [hc] at hstop
          simpa using hstop
  · rintro ⟨number, unit, hunit, rfl, hwritten, hnext⟩
    rcases hwritten.numeric with ⟨hne, hnumeric⟩
    rcases Scale.solid_of_mem_spellings hunit with ⟨hunitne, hsolid⟩
    -- The number ends where the unit begins, and the unit where the next number does.
    have hstop : ∀ c, (unit.toList ++ rest).head? = some c → isNumeric c = false := by
      intro c hc
      rw [List.head?_append, List.head?_eq_some_head hunitne, Option.some_or,
        Option.some.injEq] at hc
      exact hsolid c (hc ▸ List.head_mem hunitne)
    have hend : ∀ c, rest.head? = some c → (!isNumeric c) = false := by
      intro c hc
      rw [hnext c hc]
      rfl
    have hunitall : ∀ c ∈ unit.toList, (!isNumeric c) = true := by
      intro c hc
      rw [hsolid c hc]
      rfl
    simp only [cutTerm, Text.takeWhile_append_of_head hnumeric hstop,
      Text.dropWhile_append_of_head hnumeric hstop, Text.takeWhile_append_of_head hunitall hend,
      Text.dropWhile_append_of_head hunitall hend, Decimal.ofText?_of_written hwritten,
      Scale.ofText?_toList hunit, List.isEmpty_iff, hne, List.append_eq_nil_iff, hunitne,
      false_and, if_false]

theorem length_lt_of_cutTerm {term : Term} (h : cutTerm text = .ok (term, rest)) :
    rest.length < text.length := by
  rcases cutTerm_eq_ok_iff.mp h with ⟨number, unit, _, rfl, hwritten, _⟩
  have hpos := List.length_pos_iff.mpr hwritten.numeric.1
  rw [List.length_append, List.length_append]
  omega

/-- Where a turn finds a fault, the text is not by the grammar. -/
theorem isSyntax_of_cutTerm {fault : Fault} (h : cutTerm text = .error fault) :
    fault.IsSyntax := by
  simp only [cutTerm] at h
  split_ifs at h with hbehind hnumber
  · rw [← Except.error.inj h]
    exact .inl (by decide)
  · rw [← Except.error.inj h]
    exact .inl (by decide)
  · split at h
    · rw [← Except.error.inj h]
      exact .inr (.inl ⟨_, rfl⟩)
    · split at h
      · rw [← Except.error.inj h]
        exact .inr (.inr ⟨_, rfl⟩)
      · exact absurd h (by simp only [reduceCtorEq, not_false_eq_true])

/-- The terms of a text are that of one turn and those of the rest. -/
theorem terms_of_ne_nil (hne : text ≠ []) :
    terms text = (cutTerm text).bind fun cut => (terms cut.2).map (cut.1 :: ·) := by
  cases text with
  | nil => exact absurd rfl hne
  | cons c tail =>
      rw [terms]
      -- The reader has looked at the first character of the unit before it takes the unit.
      split
      · next hbehind =>
        simp only [cutTerm, hbehind, List.isEmpty_nil, if_true, Except.bind]
      · next u more hbehind =>
        have hu : (!isNumeric u) = true := by
          have hstop := List.head?_dropWhile_not isNumeric (c :: tail)
          rw [hbehind] at hstop
          simpa using hstop
        have hdrop : (u :: more).dropWhile (fun c => !isNumeric c) =
            more.dropWhile (fun c => !isNumeric c) := List.dropWhile_cons_of_pos hu
        simp only [cutTerm, hbehind, List.isEmpty_cons, Bool.false_eq_true, if_false]
        split
        · rfl
        · cases Decimal.ofText? ((c :: tail).takeWhile isNumeric) with
          | none => rfl
          | some amount =>
              cases Scale.ofText? ((u :: more).takeWhile (!isNumeric ·)) with
              | none => rfl
              | some scale =>
                  rw [hdrop, Except.bind]

/-- A sequence of terms is empty or begins with a number. -/
theorem Spelled.numeric_of_head? (h : Spelled text found) {c : Char} (hc : text.head? = some c) :
    isNumeric c = true := by
  cases h with
  | nil => exact absurd hc (by simp only [List.head?_nil, reduceCtorEq, not_false_eq_true])
  | cons hnumber _ _ =>
      rcases hnumber.numeric with ⟨hne, hall⟩
      rw [List.head?_append, List.head?_eq_some_head hne, Option.some_or,
        Option.some.injEq] at hc
      exact hall c (hc ▸ List.head_mem hne)

/-- There is text exactly if there are terms. -/
theorem Spelled.eq_nil_iff (h : Spelled text found) : text = [] ↔ found = [] := by
  cases h with
  | nil => exact iff_of_true rfl rfl
  | cons hnumber _ _ =>
      refine iff_of_false (fun hnil => ?_) (List.cons_ne_nil _ _)
      exact hnumber.numeric.1 (List.append_eq_nil_iff.mp hnil).1

theorem terms_of_spelled (h : Spelled text found) : terms text = .ok found := by
  induction h with
  | nil => rw [terms]
  | @cons amount scale number rest unit more hnumber hunit hrest ih =>
      -- The rest is empty or begins with a number, which is where the unit ends.
      have hwhole := Spelled.cons hnumber hunit hrest
      have hturn : cutTerm (number ++ (unit.toList ++ rest)) = .ok (⟨amount, scale⟩, rest) :=
        cutTerm_eq_ok_iff.mpr ⟨number, unit, hunit, rfl, hnumber, fun c => hrest.numeric_of_head?⟩
      have hne := mt hwhole.eq_nil_iff.mp (List.cons_ne_nil _ _)
      rw [terms_of_ne_nil hne, hturn]
      simp only [Except.bind, ih]
      rfl

theorem spelled_of_terms (h : terms text = .ok found) : Spelled text found := by
  -- The induction is on the length, since a turn takes more than one character.
  induction hlength : text.length using Nat.strongRecOn generalizing text found with
  | _ length ih =>
    by_cases hne : text = []
    · subst hne
      rw [terms] at h
      rw [← Except.ok.inj h]
      exact .nil
    · rw [terms_of_ne_nil hne] at h
      rcases Url.eq_ok_of_bind h with ⟨⟨term, rest⟩, hturn, hmore⟩
      rcases Url.eq_ok_of_map hmore with ⟨more, hrest, rfl⟩
      have hshorter := length_lt_of_cutTerm hturn
      have hspelled := ih rest.length (hlength ▸ hshorter) hrest rfl
      rcases cutTerm_eq_ok_iff.mp hturn with ⟨number, unit, hunit, rfl, hnumber, _⟩
      exact .cons hnumber hunit hspelled

/-- The turns take a text apart as it was put together. -/
theorem terms_eq_ok_iff : terms text = .ok found ↔ Spelled text found :=
  ⟨spelled_of_terms, terms_of_spelled⟩

/-- The turns come to an end, and there are no more of them than characters. -/
theorem scans_terms (text : List Char) : ∃ turns ≤ text.length, Scans turns text (terms text) := by
  -- The induction is on the length here as well.
  induction hlength : text.length using Nat.strongRecOn generalizing text with
  | _ length ih =>
    by_cases hne : text = []
    · subst hne
      rw [terms]
      exact ⟨0, Nat.zero_le _, .done⟩
    · have hpos := List.length_pos_iff.mpr hne
      cases hturn : cutTerm text with
      | error fault =>
          rw [terms_of_ne_nil hne, hturn]
          exact ⟨1, by omega, .stop hne hturn⟩
      | ok cut =>
          rcases cut with ⟨term, rest⟩
          have hshorter := length_lt_of_cutTerm hturn
          rcases ih rest.length (by omega) rest rfl with ⟨turns, hturns, hscans⟩
          rw [terms_of_ne_nil hne, hturn]
          exact ⟨turns + 1, by omega, .turn hne hturn hscans⟩

/-- All turns but the last take a term, and the last one finds the fault. -/
theorem Scans.isSyntax {turns : Nat} {result : Except Fault (List Term)}
    (h : Scans turns text result) : ∀ fault, result = .error fault → fault.IsSyntax := by
  induction h with
  | done =>
      intro fault hfault
      exact absurd hfault (by simp only [reduceCtorEq, not_false_eq_true])
  | stop hne hturn =>
      intro fault hfault
      rw [← Except.error.inj hfault]
      exact isSyntax_of_cutTerm hturn
  | @turn text rest term turns result hne hturn hrest ih =>
      intro fault hfault
      cases result with
      | ok more => exact absurd hfault (by simp only [Except.map, reduceCtorEq, not_false_eq_true])
      | error other => exact ih fault hfault

theorem spanOf_cases (total : Float) :
    (∃ span, spanOf total = .ok span) ∨ spanOf total = .error .outOfRange := by
  unfold spanOf
  split
  · exact .inl ⟨_, rfl⟩
  · exact .inr rfl

/-- What is neither empty nor a bare zero is read in turns. -/
theorem read_of_turns {raw : String} (hempty : (Text.trim raw).toList ≠ [])
    (hzero : (Text.trim raw).toList ≠ ['0']) :
    read raw = (terms (Text.trim raw).toList).bind fun found =>
      spanOf (found.foldl (fun total term => total + term.length) 0.0) := by
  simp only [read, List.isEmpty_iff, hempty, hzero, if_false]

/-- A text by the grammar is a span, or stands for too long a time. -/
theorem read_of_isDuration {raw : String} (h : IsDuration (Text.trim raw).toList) :
    (∃ span, read raw = .ok span) ∨ read raw = .error .outOfRange := by
  by_cases hzero : (Text.trim raw).toList = ['0']
  · rw [read, hzero]
    exact .inl ⟨_, rfl⟩
  · rcases h with hbare | ⟨found, hfound, hspelled⟩
    · exact absurd hbare hzero
    · have hempty := mt hspelled.eq_nil_iff.mp hfound
      rw [read_of_turns hempty hzero, terms_eq_ok_iff.mpr hspelled, Except.bind]
      exact spanOf_cases _

/-- Any other text is refused for its writing. -/
theorem read_of_not_isDuration {raw : String} (h : ¬ IsDuration (Text.trim raw).toList) :
    ∃ fault, read raw = .error fault ∧ fault.IsSyntax := by
  by_cases hempty : (Text.trim raw).toList = []
  · rw [read, hempty]
    exact ⟨.empty, rfl, .inl (by decide)⟩
  · have hzero : (Text.trim raw).toList ≠ ['0'] := fun hzero => h (.inl hzero)
    rw [read_of_turns hempty hzero]
    cases hterms : terms (Text.trim raw).toList with
    | ok found =>
        -- Turns that all went well would have taken a sequence of terms apart.
        have hspelled := terms_eq_ok_iff.mp hterms
        have hfound := mt hspelled.eq_nil_iff.mpr hempty
        exact absurd (.inr ⟨found, hfound, hspelled⟩) h
    | error fault =>
        rcases scans_terms (Text.trim raw).toList with ⟨turns, _, hscans⟩
        exact ⟨fault, rfl, hscans.isSyntax fault hterms⟩

/-- Which texts are read. A text is a span, or one that is out of range, exactly if it
    is by the grammar once the blanks around it are dropped, and is refused for its
    writing exactly if it is not. The reader gets there in no more turns than there are
    characters. -/
theorem read_iff_isDuration (raw : String) :
    let text := (Text.trim raw).toList
    (IsDuration text ↔ (∃ span, RunParameters.readSpan raw = .ok span) ∨
      ∃ fault, RunParameters.readSpan raw = .error (.duration raw fault) ∧
        fault.message = "duration out of range") ∧
    (¬ IsDuration text ↔ ∃ fault, RunParameters.readSpan raw = .error (.duration raw fault) ∧
      fault.IsSyntax) ∧
    ∃ turns ≤ text.length, Scans turns text (terms text) := by
  intro text
  have hread : IsDuration text → (∃ span, RunParameters.readSpan raw = .ok span) ∨
      ∃ fault, RunParameters.readSpan raw = .error (.duration raw fault) ∧
        fault.message = "duration out of range" := by
    intro h
    unfold RunParameters.readSpan
    rcases read_of_isDuration h with ⟨span, hspan⟩ | hlong
    · exact .inl ⟨span, by rw [hspan]; rfl⟩
    · exact .inr ⟨.outOfRange, by rw [hlong]; rfl, rfl⟩
  have hrefused : ¬ IsDuration text → ∃ fault,
      RunParameters.readSpan raw = .error (.duration raw fault) ∧ fault.IsSyntax := by
    intro hnot
    unfold RunParameters.readSpan
    rcases read_of_not_isDuration hnot with ⟨fault, hfault, hsyntax⟩
    exact ⟨fault, by rw [hfault]; rfl, hsyntax⟩
  -- The two ways to end exclude each other, by what the faults say.
  have happart : ((∃ span, RunParameters.readSpan raw = .ok span) ∨
      ∃ fault, RunParameters.readSpan raw = .error (.duration raw fault) ∧
        fault.message = "duration out of range") →
      ¬ ∃ fault, RunParameters.readSpan raw = .error (.duration raw fault) ∧ fault.IsSyntax := by
    rintro (⟨span, hspan⟩ | ⟨other, hother, hmessage⟩) ⟨fault, hfault, hsyntax⟩
    · rw [hspan] at hfault
      exact absurd hfault (by simp only [reduceCtorEq, not_false_eq_true])
    · rw [hother, Except.error.injEq, RunParameters.Fault.duration.injEq] at hfault
      rw [← hfault.2] at hsyntax
      exact hsyntax.message_ne hmessage
  refine ⟨⟨hread, fun h => ?_⟩, ⟨hrefused, fun h hwritten => happart (hread hwritten) h⟩,
    scans_terms text⟩
  exact Classical.byContradiction fun hnot => happart h (hrefused hnot)

end Duration

end BatchRun
