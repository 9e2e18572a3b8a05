import BatchRun.Proofs.Text.Lines
import BatchRun.Proofs.Text.Whole
import BatchRun.Xml.Markup

/-!
# Texts Spelled in Markup

The ways to write a text where markup is read, and that they are read as the text.

A character that means nothing to the markup may stand for itself, and any character
that a document may hold may be written as a reference: by one of the five names, or
by its code in decimal or hexadecimal digits, with zeros in front and letters in
either case. What stands between the marks of a reference are letters and digits, so
the writing of a text never holds what has a meaning to the reader around it.

## Main definitions

* `Xml.Refers`: What may stand between the marks of a reference to a character.
* `Xml.Spells`: The ways to write a text.
* `Xml.spelling`: One of them, for any text.

## Theorems

* `Xml.referent_of_refers`: A reference is read as its character.
* `Xml.resolve?_of_spells`: A text is read as it was spelled.
* `Xml.Spells.ordinary`: What the writing of a text holds.
* `Xml.spells_spelling`: Every text can be spelled.
-/

namespace BatchRun

/-- What has an item that a list has not does not stand in the list. -/
theorem Text.occursIn_of_not_mem {α : Type} [DecidableEq α] {part items : List α} {x : α}
    (hx : x ∈ part) (h : x ∉ items) : Text.occursIn part items = false := by
  induction items with
  | nil => exact List.isEmpty_eq_false_iff.mpr (List.ne_nil_of_mem hx)
  | cons y items ih =>
      have hstart : Text.afterStart part (y :: items) = none := by
        rw [Option.eq_none_iff_forall_ne_some]
        intro rest hrest
        exact h (Text.eq_of_afterStart hrest ▸ List.mem_append_left rest hx)
      rw [Text.occursIn, hstart, Option.isSome_none, Bool.false_or,
        ih fun hmem => h (List.mem_cons_of_mem y hmem)]

namespace Xml

section Digits

variable {digits : List Char} {n : Nat}

theorem decimalCode_of_digitsIn (hne : digits ≠ []) (h : Ip.digitsIn 10 digits = some n) :
    decimalCode digits = some n := by
  rw [decimalCode, if_neg (by simpa using hne)]
  refine Ip.digitsIn_induction h rfl fun digits value c d ih hc hd => ?_
  have hdecimal := Hex.decimal_of_digitValue hc hd
  have hdigit : c.isDigit = true := by
    simpa [Char.isDigit, Char.le_def] using hdecimal.1
  rw [List.foldlM_append, ih, Option.bind_eq_bind, Option.bind_some, List.foldlM_cons,
    if_pos hdigit, hdecimal.2]
  rfl

theorem hexCode_of_digitsIn (hne : digits ≠ []) (h : Ip.digitsIn 16 digits = some n) :
    hexCode digits = some n := by
  rw [hexCode, if_neg (by simpa using hne)]
  refine Ip.digitsIn_induction h rfl fun digits value c d ih hc hd => ?_
  rw [List.foldlM_append, ih, Option.bind_eq_bind, Option.bind_some, List.foldlM_cons, hc,
    Option.map_some]
  rfl

/-- Digits in any base are letters and digits. -/
theorem isAlphanum_of_digitsIn {base : Nat} (h : Ip.digitsIn base digits = some n) :
    ∀ c ∈ digits, c.isAlphanum = true := by
  refine Ip.digitsIn_induction h (fun c hc => absurd hc List.not_mem_nil)
    fun digits value c d ih hc _ x hx => ?_
  rcases List.mem_append.mp hx with hx | hx
  · exact ih x hx
  · have hsome : (Hex.digitValue x).isSome = true := by
      rw [List.mem_singleton.mp hx, hc]
      rfl
    exact Hex.isAlphanum_of_digitValue hsome

end Digits

section References

variable {name : List Char} {c : Char}

/-- The names that every document knows, and what they stand for. -/
def knownNames : List (List Char × Char) :=
  [(['l', 't'], '<'), (['g', 't'], '>'), (['a', 'm', 'p'], '&'), (['q', 'u', 'o', 't'], '"'),
    (['a', 'p', 'o', 's'], '\'')]

/-- What may stand between the marks of a reference to a character. -/
inductive Refers : List Char → Char → Prop
  | known {name : List Char} {c : Char} : (name, c) ∈ knownNames → Refers name c
  | decimal {digits : List Char} {c : Char} : digits ≠ [] →
      Ip.digitsIn 10 digits = some c.toNat → Refers ('#' :: digits) c
  | hexadecimal {digits : List Char} {c : Char} : digits ≠ [] →
      Ip.digitsIn 16 digits = some c.toNat → Refers ('#' :: 'x' :: digits) c

theorem ofCode_toNat (h : isAllowed c.toNat = true) : ofCode (some c.toNat) = some c := by
  have hscalar : (decide (c.toNat < 0xD800) ||
      decide (0xDFFF < c.toNat) && decide (c.toNat < 0x110000)) = true := by
    have hvalid : c.toNat < 0xD800 ∨ 0xDFFF < c.toNat ∧ c.toNat < 0x110000 := c.valid
    simpa only [Bool.or_eq_true, Bool.and_eq_true, decide_eq_true_eq] using hvalid
  have hlt : c.toNat < 0x100000000 := c.val.toNat_lt
  simp only [ofCode, Option.bind_some, hscalar, if_true, Char.ofNat_toNat, decide_eq_true hlt, h,
    Bool.and_self]

/-- A reference is read as its character. -/
theorem referent_of_refers (h : Refers name c) (hc : isAllowed c.toNat = true) :
    referent name = some c := by
  cases h with
  | known hmem =>
      simp only [knownNames, List.mem_cons, Prod.mk.injEq, List.not_mem_nil, or_false] at hmem
      rcases hmem with ⟨rfl, rfl⟩ | ⟨rfl, rfl⟩ | ⟨rfl, rfl⟩ | ⟨rfl, rfl⟩ | ⟨rfl, rfl⟩
      all_goals rfl
  | hexadecimal hne hdigits => rw [referent, hexCode_of_digitsIn hne hdigits, ofCode_toNat hc]
  | @decimal digits _ hne hdigits =>
      -- The mark of hexadecimal digits is no decimal digit.
      have hx : ∀ rest, digits ≠ 'x' :: rest := by
        intro rest heq
        have hnone : Ip.digitsIn 10 ('x' :: rest) = none := rfl
        rw [heq, hnone] at hdigits
        exact absurd hdigits (by simp only [reduceCtorEq, not_false_eq_true])
      rw [referent, decimalCode_of_digitsIn hne hdigits, ofCode_toNat hc]
      exact hx

/-- Whether a character may stand in a reference. -/
def isReferring (c : Char) : Bool := c == '&' || c == '#' || c == ';' || c.isAlphanum

theorem isAllowed_of_isReferring (h : isReferring c = true) : isAllowed c.toNat = true := by
  have hascii : c.toNat < 0x80 := by
    simp only [isReferring, Bool.or_eq_true, beq_iff_eq] at h
    rcases h with ((rfl | rfl) | rfl) | halpha
    · decide
    · decide
    · decide
    · exact toNat_of_isAlphanum halpha
  revert h
  exact forall_ascii c hascii (by decide +kernel)

theorem isReferring_of_refers (h : Refers name c) :
    ∀ x ∈ name, isReferring x = true ∧ x ≠ ';' := by
  have hdigits : ∀ {base n} {digits : List Char}, Ip.digitsIn base digits = some n →
      ∀ x ∈ digits, isReferring x = true ∧ x ≠ ';' := by
    intro base n digits h x hx
    have halpha := isAlphanum_of_digitsIn h x hx
    refine ⟨by rw [isReferring, halpha, Bool.or_true], ?_⟩
    rintro rfl
    exact absurd halpha (by decide)
  cases h with
  | known hmem =>
      simp only [knownNames, List.mem_cons, Prod.mk.injEq, List.not_mem_nil, or_false] at hmem
      rcases hmem with ⟨rfl, rfl⟩ | ⟨rfl, rfl⟩ | ⟨rfl, rfl⟩ | ⟨rfl, rfl⟩ | ⟨rfl, rfl⟩
      all_goals
        simp only [List.mem_cons, List.not_mem_nil, or_false, forall_eq_or_imp, forall_eq]
        decide
  | decimal _ h => exact List.forall_mem_cons.mpr ⟨by decide, hdigits h⟩
  | hexadecimal _ h =>
      exact List.forall_mem_cons.mpr ⟨by decide, List.forall_mem_cons.mpr ⟨by decide, hdigits h⟩⟩

end References

section Spelling

variable {special : Char → Bool} {content written : List Char}

/-- The ways to write a text where some characters have a special meaning. -/
inductive Spells (special : Char → Bool) : List Char → List Char → Prop
  | nil : Spells special [] []
  | plain {c : Char} {content written : List Char} : isAllowed c.toNat = true →
      special c = false → Spells special content written →
      Spells special (c :: content) (c :: written)
  | reference {name : List Char} {c : Char} {content written : List Char} :
      isAllowed c.toNat = true → Refers name c → Spells special content written →
      Spells special (c :: content) ('&' :: (name ++ ';' :: written))

/-- A text is read as it was spelled. -/
theorem resolve?_of_spells (hmark : special '&' = true) (h : Spells special content written) :
    resolve? written = some content := by
  induction h with
  | nil => rw [resolve?]
  | @plain c content written _ hc _ ih =>
      have hne : c ≠ '&' := by
        rintro rfl
        exact absurd hmark (Bool.eq_false_iff.mp hc)
      rw [resolve?, if_neg hne, ih, Option.map_some]
  | @reference name c content written hallowed hrefers _ ih =>
      have hsemicolon : ';' ∉ name := fun hmem => (isReferring_of_refers hrefers _ hmem).2 rfl
      have hcut := Text.cutAtFirst_append_cons hsemicolon written
      rw [resolve?, if_pos rfl]
      split
      · next hnone =>
        rw [hcut] at hnone
        exact absurd hnone (by simp only [reduceCtorEq, not_false_eq_true])
      · next hsome =>
        rw [hcut, Option.some.injEq, Prod.mk.injEq] at hsome
        rw [← hsome.1, ← hsome.2, referent_of_refers hrefers hallowed, ih]

/-- The writing of a text holds characters of the text without a special meaning, and
    those of references. -/
theorem Spells.ordinary (h : Spells special content written) :
    ∀ x ∈ written, isAllowed x.toNat = true ∧ (special x = false ∨ isReferring x = true) := by
  induction h with
  | nil => exact fun x hx => absurd hx List.not_mem_nil
  | plain hallowed hc _ ih => exact List.forall_mem_cons.mpr ⟨⟨hallowed, .inl hc⟩, ih⟩
  | @reference name c content written hallowed hrefers _ ih =>
      intro x hx
      rw [List.mem_cons, List.mem_append, List.mem_cons] at hx
      rcases hx with rfl | hname | rfl | hrest
      · exact ⟨by decide, .inr (by decide)⟩
      · have hx := (isReferring_of_refers hrefers x hname).1
        exact ⟨isAllowed_of_isReferring hx, .inr hx⟩
      · exact ⟨by decide, .inr (by decide)⟩
      · exact ih x hrest

/-- Where less has a special meaning, the same writing does. -/
theorem Spells.weaken {other : Char → Bool} (hless : ∀ c, other c = true → special c = true)
    (h : Spells special content written) : Spells other content written := by
  induction h with
  | nil => exact .nil
  | @plain c _ _ hallowed hc _ ih =>
      refine .plain hallowed (Bool.eq_false_iff.mpr fun hother => ?_) ih
      exact absurd (hless c hother) (Bool.eq_false_iff.mp hc)
  | reference hallowed hrefers _ ih => exact .reference hallowed hrefers ih

/-- A text without anything special is its own writing. -/
theorem spells_self (h : content.all (fun c => isAllowed c.toNat && !special c) = true) :
    Spells special content content := by
  induction content with
  | nil => exact .nil
  | cons c rest ih =>
      simp only [List.all_cons, Bool.and_eq_true, Bool.not_eq_true'] at h
      exact .plain h.1.1 h.1.2 (ih h.2)

/-- The writing of a text that has references by decimal codes for what has a special
    meaning. -/
def spelling (special : Char → Bool) (content : List Char) : List Char :=
  content.flatMap fun c =>
    if special c then '&' :: ('#' :: Nat.toDigits 10 c.toNat ++ [';']) else [c]

/-- Every text that a document may hold can be spelled. -/
theorem spells_spelling (h : ∀ c ∈ content, isAllowed c.toNat = true) :
    Spells special content (spelling special content) := by
  induction content with
  | nil => exact .nil
  | cons c rest ih =>
      rw [List.forall_mem_cons] at h
      rw [spelling, List.flatMap_cons]
      by_cases hc : special c = true
      · rw [if_pos hc, List.cons_append, List.append_assoc]
        refine .reference h.1 (.decimal ?_ (Ip.digitsIn_toDigits (by decide) (by decide) _))
          (ih h.2)
        exact Nat.toDigits_ne_nil
      · rw [if_neg hc]
        exact .plain h.1 (Bool.eq_false_iff.mpr hc) (ih h.2)

end Spelling

end Xml

end BatchRun
