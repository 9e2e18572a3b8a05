import BatchRun.Json.Basic
import Mathlib.Data.List.Basic

/-!
# Records in JSON

What of an object matters to the reader of a record.

A record is read by the names of its fields. So the order of the members does not matter,
nor do members with other names, whatever they hold. A field that may be absent may be
null as well, and these two are read alike. Only a name that is no text is refused
wherever it stands, and so is a field that occurs twice.

## Main definitions

* `Json.field?`: The value of a field.
* `Json.optionalField?`: A field that may be absent or null.
* `Json.Edited`: A record in another layout.

## Theorems

* `Json.mem_iff_of_field?`, `Json.optionalField?_eq_some`: What a field was read from.
* `Json.Edited.field?_eq`, `Json.Edited.optionalField?_eq`: Fields are read alike in
  every layout.
-/

namespace BatchRun

namespace Json

variable {members others : List (Option String × Json)} {name : String}

/-- The value of a field of a record, if there is one. A field that occurs twice cannot
    be read. -/
def field? (members : List (Option String × Json)) (name : String) : Option (Option Json) :=
  match named members name with
  | [] => some none
  | [value] => some (some value)
  | _ => none

/-- A field that may be absent or null. -/
def optionalField? {α : Type} (read : Json → Option α) (members : List (Option String × Json))
    (name : String) : Option (Option α) :=
  (field? members name).bind (optional? read)

theorem fields?_object (names : List String) (members : List (Option String × Json)) :
    fields? names (.object members) =
      if members.any (·.1.isNone) then none else names.mapM (field? members) := rfl

theorem mem_named {value : Json} : value ∈ named members name ↔ (some name, value) ∈ members := by
  rw [named, List.mem_map]
  constructor
  · rintro ⟨⟨called, found⟩, hmem, rfl⟩
    rcases List.mem_filter.mp hmem with ⟨hmem, hname⟩
    rw [← of_decide_eq_true hname]
    exact hmem
  · intro hmem
    exact ⟨_, List.mem_filter.mpr ⟨hmem, decide_eq_true rfl⟩, rfl⟩

/-- A field has the value of the only member with its name. -/
theorem mem_iff_of_field? {field : Option Json} (h : field? members name = some field)
    {value : Json} : (some name, value) ∈ members ↔ field = some value := by
  rw [← mem_named]
  rw [field?] at h
  split at h
  · next hnamed =>
    cases h
    simp only [hnamed, List.not_mem_nil, reduceCtorEq]
  · next found hnamed =>
    cases h
    rw [hnamed, List.mem_singleton, Option.some.injEq]
    exact eq_comm
  · cases h

theorem optional?_of_ne_null {α : Type} {value : Json} (h : value ≠ .null)
    (read : Json → Option α) : optional? read (some value) = (read value).map some := by
  cases value with
  | null => exact absurd rfl h
  | _ => rfl

/-- What was read of a field that may be absent or null: nothing in just these two cases. -/
theorem optionalField?_eq_some {α : Type} {read : Json → Option α} {result : Option α}
    (h : optionalField? read members name = some result) :
    (result = none ↔ (∀ value, (some name, value) ∉ members) ∨ (some name, .null) ∈ members) ∧
      ∀ value, (some name, value) ∈ members → value ≠ .null →
        read value = result ∧ result ≠ none := by
  rcases Option.bind_eq_some_iff.mp h with ⟨field, hfield, hread⟩
  simp only [mem_iff_of_field? hfield]
  cases field with
  | none =>
      cases hread
      have habsent : ∀ value : Json, ¬ (none = some value) := fun _ hvalue => by cases hvalue
      exact ⟨⟨fun _ => .inl habsent, fun _ => rfl⟩,
        fun value hvalue => absurd hvalue (habsent value)⟩
  | some found =>
      by_cases hnull : found = .null
      · rw [hnull] at hread
        cases hread
        refine ⟨⟨fun _ => .inr (congrArg some hnull), fun _ => rfl⟩, fun value hvalue hsolid => ?_⟩
        exact absurd ((Option.some.inj hvalue).symm.trans hnull) hsolid
      · rw [optional?_of_ne_null hnull] at hread
        rcases Option.map_eq_some_iff.mp hread with ⟨value, hvalue, rfl⟩
        refine ⟨⟨fun hnone => (by cases hnone), ?_⟩, fun other hother _ => ?_⟩
        · rintro (habsent | hother)
          · exact absurd rfl (habsent found)
          · exact absurd (Option.some.inj hother) hnull
        · rw [← Option.some.inj hother]
          exact ⟨hvalue, fun hnone => (by cases hnone)⟩

/-- Something that was read of a field stands there. -/
theorem exists_of_optionalField? {α : Type} {read : Json → Option α} {result : α}
    (h : optionalField? read members name = some (some result)) :
    ∃ value, (some name, value) ∈ members ∧ read value = some result := by
  rcases optionalField?_eq_some h with ⟨hnone, hsome⟩
  have hpresent := mt hnone.mpr (by simp only [reduceCtorEq, not_false_eq_true])
  rw [not_or, not_forall] at hpresent
  rcases hpresent with ⟨⟨found, hfound⟩, hnull⟩
  rw [not_not] at hfound
  exact ⟨found, hfound, (hsome found hfound fun heq => hnull (heq ▸ hfound)).1⟩

/-- The text that was read of a field is the one that stands there. -/
theorem mem_iff_of_optionalField? {result : Option String}
    (h : optionalField? text? members name = some result) {value : String} :
    (some name, .text (some value)) ∈ members ↔ result = some value := by
  constructor
  · intro hmem
    have hsolid : Json.text (some value) ≠ .null := by
      simp only [ne_eq, reduceCtorEq, not_false_eq_true]
    exact ((optionalField?_eq_some h).2 _ hmem hsolid).1.symm
  · rintro rfl
    rcases exists_of_optionalField? h with ⟨found, hfound, hread⟩
    cases found with
    | text content =>
        have hcontent : content = some value := hread
        rw [← hcontent]
        exact hfound
    | _ => cases hread

theorem named_append (front back : List (Option String × Json)) (name : String) :
    named (front ++ back) name = named front name ++ named back name := by
  rw [named, List.filter_append, List.map_append]
  rfl

theorem named_cons_of_ne {called : Option String} (h : called ≠ some name) (value : Json)
    (members : List (Option String × Json)) :
    named ((called, value) :: members) name = named members name := by
  rw [named, List.filter_cons_of_neg (by rw [decide_eq_true_eq]; exact h)]
  rfl

theorem named_cons_self (name : String) (value : Json) (members : List (Option String × Json)) :
    named ((some name, value) :: members) name = value :: named members name := by
  rw [named, List.filter_cons_of_pos (by rw [decide_eq_true_eq]), List.map_cons]
  rfl

theorem field?_of_ne {called : String} (h : called ≠ name) (value : Json)
    (front back : List (Option String × Json)) :
    field? (front ++ (some called, value) :: back) name = field? (front ++ back) name := by
  rw [field?, field?, named_append, named_append,
    named_cons_of_ne fun heq => h (Option.some.inj heq)]

/-- Whether a member is the only one with its name does not depend on its value. -/
theorem field?_self (front back : List (Option String × Json)) (name : String) :
    (∀ value, field? (front ++ (some name, value) :: back) name = some (some value)) ∨
      ∀ value, field? (front ++ (some name, value) :: back) name = none := by
  have hnamed : ∀ value, named (front ++ (some name, value) :: back) name =
      named front name ++ value :: named back name := by
    intro value
    rw [named_append, named_cons_self]
  -- The member is the only one if there is none of its name on either side.
  cases hfront : named front name with
  | nil =>
      cases hback : named back name with
      | nil =>
          left
          intro value
          rw [field?, hnamed, hfront, hback]
          rfl
      | cons second rest =>
          right
          intro value
          rw [field?, hnamed, hfront, hback]
          rfl
  | cons first rest =>
      right
      intro value
      rw [field?, hnamed, hfront]
      cases rest with
      | nil => rfl
      | cons second rest => rfl

/-- A record in another layout: with its members in another order, with one more member
    of another name, or with null for a field that is absent and may be null. -/
inductive Edited (known nullable : List String) :
    List (Option String × Json) → List (Option String × Json) → Prop
  | permuted {members others : List (Option String × Json)} (h : members.Perm others) :
      Edited known nullable members others
  | inserted {front back : List (Option String × Json)} {name : String} (value : Json)
      (h : name ∉ known) :
      Edited known nullable (front ++ back) (front ++ (some name, value) :: back)
  | nulled {front back : List (Option String × Json)} {name : String} (h : name ∈ nullable)
      (habsent : ∀ value, (some name, value) ∉ front ++ back) :
      Edited known nullable (front ++ back) (front ++ (some name, .null) :: back)

namespace Edited

variable {known nullable : List String}

/-- No name is added that is no text. -/
theorem any_isNone (h : Edited known nullable members others) :
    members.any (·.1.isNone) = others.any (·.1.isNone) := by
  cases h with
  | permuted h => exact h.any_eq
  | inserted value _ =>
      rw [List.any_append, List.any_append, List.any_cons, Option.isNone_some, Bool.false_or]
  | nulled _ _ =>
      rw [List.any_append, List.any_append, List.any_cons, Option.isNone_some, Bool.false_or]

theorem field?_of_perm (h : members.Perm others) (name : String) :
    field? members name = field? others name := by
  have hnamed : (named members name).Perm (named others name) := (h.filter _).map _
  rw [field?, field?]
  -- Of two lists in different orders either both have one element or neither has.
  generalize named members name = values at hnamed
  generalize named others name = found at hnamed
  match values with
  | [] => rw [List.nil_perm.mp hnamed]
  | [value] => rw [List.singleton_perm.mp hnamed]
  | first :: second :: rest =>
      match found, hnamed.length_eq with
      | _ :: _ :: _, _ => rfl

/-- A field that is not nullable is read alike. -/
theorem field?_eq (h : Edited known nullable members others) (hname : name ∈ known)
    (hsolid : name ∉ nullable) : field? members name = field? others name := by
  cases h with
  | permuted h => exact field?_of_perm h name
  | inserted value hother =>
      rw [field?_of_ne]
      rintro rfl
      exact hother hname
  | nulled hnull _ =>
      rw [field?_of_ne]
      rintro rfl
      exact hsolid hnull

/-- An optional field is read alike. -/
theorem optionalField?_eq {α : Type} (h : Edited known nullable members others)
    (hname : name ∈ known) (read : Json → Option α) :
    optionalField? read members name = optionalField? read others name := by
  rw [optionalField?, optionalField?]
  cases h with
  | permuted h => rw [field?_of_perm h name]
  | inserted value hother =>
      rw [field?_of_ne]
      rintro rfl
      exact hother hname
  | @nulled front back called hnull habsent =>
      by_cases hcalled : called = name
      · -- The field was absent and is null, which says the same.
        have hnone : named (front ++ back) called = [] :=
          List.eq_nil_iff_forall_not_mem.mpr fun value hmem => habsent value (mem_named.mp hmem)
        have hapart := hnone
        rw [named_append, List.append_eq_nil_iff] at hapart
        rw [← hcalled, field?, field?, hnone, named_append, named_cons_self, hapart.1, hapart.2]
        rfl
      · rw [field?_of_ne hcalled]

end Edited

end Json

end BatchRun
