import BatchRun.Proofs.Json.Bytes
import BatchRun.Proofs.Json.Record
import BatchRun.Service.Rest
import Mathlib.Data.List.Forall2
import Mathlib.Logic.Relation

/-!
# Pages of Attempts in Any Layout

A page of attempts does not depend on how its text is laid out.

The text spells an object, whose members are read field by field, and so are those of
each attempt. So it does not matter how the text spells the object, in which order the
members stand, whether there are others, and whether a field that may be absent is absent
or null. Each of these is one edit of the page or of an attempt in it. One edit changes
nothing of what is read, and neither does any number of them.

The page that is read says what the members say: an attempt for each object of the list,
at its place and with its own number or that of its place, and a token unless it is
absent, null or empty. An attempt must have a state.

The name of a member that is added has to be a text. Half of a surrogate pair is none, and
with such a name nothing is read.

## Main definitions

* `AttemptPage.Relaid`: A page with one edit.
* `AttemptPage.IsOf`, `Attempt.IsOf`: What the members of an object say.
* `AttemptPage.ofText?`: What the text of an answer says.

## Theorems

* `AttemptRecord.ofJson?_of_edited`: An attempt in another layout.
* `AttemptPage.ofJson?_of_relaid`, `AttemptPage.ofJson?_of_eqvGen`: A page in another
  layout.
* `AttemptPage.isOf_of_ofJson?`: What a page says that was read.
* `AttemptPage.reads_in_any_layout`: All of this, for texts.
-/

namespace BatchRun

namespace AttemptRecord

/-- The fields of an attempt. -/
def fields : List String := ["attempt", "state", "stateDetails"]

/-- The fields of an attempt that may be absent or null. -/
def nullable : List String := ["attempt", "stateDetails"]

/-- An attempt is read field by field. -/
theorem ofJson?_object (members : List (Option String × Json)) :
    ofJson? (.object members) =
      if members.any (·.1.isNone) then none
      else (Json.optionalField? (Json.below? numberBound) members "attempt").bind fun attempt =>
        ((Json.field? members "state").bind Json.required?).bind fun state =>
          (Json.optionalField? Json.text? members "stateDetails").map fun stateDetails =>
            { attempt, state := RunState.ofText state, stateDetails } := by
  rw [ofJson?, Json.fields?_object, Json.optionalField?, Json.optionalField?]
  by_cases hnames : members.any (·.1.isNone) = true
  · rw [if_pos hnames, if_pos hnames]
  · rw [if_neg hnames, if_neg hnames]
    simp only [List.mapM_cons, List.mapM_nil]
    -- Whatever of the fields cannot be read, nothing is.
    cases Json.field? members "attempt" with
    | none => rfl
    | some attempt =>
        cases Json.field? members "state" with
        | none => exact (Option.bind_fun_none _).symm
        | some state =>
            cases Json.field? members "stateDetails" with
            | none =>
                have hstate : ((some state).bind Json.required?).bind
                    (fun _ => (none : Option AttemptRecord)) = none := Option.bind_fun_none _
                exact ((congrArg _ (funext fun _ => hstate)).trans (Option.bind_fun_none _)).symm
            | some details => rfl

end AttemptRecord

namespace AttemptPage

/-- The fields of a page. -/
def fields : List String := ["jobRunAttempts", "nextToken"]

/-- The field of a page that may be absent or null. -/
def nullable : List String := ["nextToken"]

/-- The records of a page, of which there are none if the field is absent. -/
def records? : Option Json → Option (List AttemptRecord)
  | none => some []
  | some items => Json.list? AttemptRecord.ofJson? items

/-- A page is read field by field. -/
theorem ofJson?_object (members : List (Option String × Json)) :
    ofJson? (.object members) =
      if members.any (·.1.isNone) then none
      else ((Json.field? members "jobRunAttempts").bind records?).bind fun records =>
        (Json.optionalField? Json.text? members "nextToken").map (ofRecords records) := by
  rw [ofJson?, Json.fields?_object, Json.optionalField?]
  by_cases hnames : members.any (·.1.isNone) = true
  · rw [if_pos hnames, if_pos hnames]
  · rw [if_neg hnames, if_neg hnames]
    simp only [List.mapM_cons, List.mapM_nil]
    cases Json.field? members "jobRunAttempts" with
    | none => rfl
    | some attempts =>
        cases Json.field? members "nextToken" with
        | none => exact (Option.bind_fun_none _).symm
        | some nextToken =>
            cases attempts with
            | none => rfl
            | some items => rfl

/-- A page in another layout: the page itself is edited, or one of its attempts. -/
inductive Relaid : Json → Json → Prop
  | page {members others : List (Option String × Json)}
      (h : Json.Edited fields nullable members others) : Relaid (.object members) (.object others)
  | attempt {front back members others : List (Option String × Json)} {before after : List Json}
      (h : Json.Edited AttemptRecord.fields AttemptRecord.nullable members others) :
      Relaid
        (.object (front ++
          (some "jobRunAttempts", .array (before ++ .object members :: after)) :: back))
        (.object (front ++
          (some "jobRunAttempts", .array (before ++ .object others :: after)) :: back))

end AttemptPage

/-- An attempt is read alike in every layout. -/
theorem AttemptRecord.ofJson?_of_edited {members others : List (Option String × Json)}
    (h : Json.Edited fields nullable members others) :
    ofJson? (.object members) = ofJson? (.object others) := by
  rw [ofJson?_object, ofJson?_object, h.any_isNone, h.optionalField?_eq (by decide),
    h.field?_eq (by decide) (by decide), h.optionalField?_eq (by decide)]

namespace AttemptPage

/-- One edit of a page or of an attempt changes nothing of what is read. -/
theorem ofJson?_of_relaid {value other : Json} (h : Relaid value other) :
    ofJson? value = ofJson? other := by
  cases h with
  | page h =>
      rw [ofJson?_object, ofJson?_object, h.any_isNone, h.field?_eq (by decide) (by decide),
        h.optionalField?_eq (by decide)]
  | @attempt front back members others before after h =>
      have hother : "jobRunAttempts" ≠ "nextToken" := by decide
      have hsame : records? (some (.array (before ++ .object members :: after))) =
          records? (some (.array (before ++ .object others :: after))) := by
        simp only [records?, Json.list?, List.mapM_append, List.mapM_cons,
          AttemptRecord.ofJson?_of_edited h]
      rw [ofJson?_object, ofJson?_object, Json.optionalField?, Json.optionalField?,
        Json.field?_of_ne hother, Json.field?_of_ne hother, List.any_append, List.any_append,
        List.any_cons, List.any_cons]
      rcases Json.field?_self front back "jobRunAttempts" with hread | hread
      · rw [hread, hread, Option.bind_some, Option.bind_some, hsame]
      · rw [hread, hread]

/-- Nor does any number of edits and of their reversals. -/
theorem ofJson?_of_eqvGen {value other : Json} (h : Relation.EqvGen Relaid value other) :
    ofJson? value = ofJson? other := by
  induction h with
  | rel _ _ h => exact ofJson?_of_relaid h
  | refl _ => rfl
  | symm _ _ _ ih => exact ih.symm
  | trans _ _ _ _ _ ih ih' => exact ih.trans ih'

end AttemptPage

/-! ### What a page says -/

section Contents

variable {members : List (Option String × Json)} {name : String}

theorem forall₂_of_mapM {α β : Type} {read : α → Option β} {items : List α} {found : List β}
    (h : items.mapM read = some found) :
    List.Forall₂ (fun item result => read item = some result) items found := by
  induction items generalizing found with
  | nil =>
      rw [List.mapM_nil] at h
      cases h
      exact .nil
  | cons item rest ih =>
      rw [List.mapM_cons] at h
      rcases Option.bind_eq_some_iff.mp h with ⟨first, hfirst, h⟩
      rcases Option.bind_eq_some_iff.mp h with ⟨others, hothers, h⟩
      cases h
      exact .cons hfirst (ih hothers)

theorem getElem?_of_forall₂ {α β : Type} {R : α → β → Prop} {items : List α} {found : List β}
    (h : List.Forall₂ R items found) {place : Nat} {item : α} (hitem : items[place]? = some item) :
    ∃ result, found[place]? = some result ∧ R item result := by
  induction h generalizing place with
  | nil => cases hitem
  | @cons first result rest others hfirst _ ih =>
      cases place with
      | zero =>
          cases hitem
          exact ⟨result, rfl, hfirst⟩
      | succ place => exact ih hitem

/-- An attempt as its place and the members of its object say. -/
structure Attempt.IsOf (attempt : Attempt) (place : Nat) (members : List (Option String × Json)) :
    Prop where
  numbered : ∀ n, (some "attempt", .number n) ∈ members → n.natural? = some attempt.number
  counted : (∀ n, (some "attempt", .number n) ∉ members) → attempt.number = place + 1
  state : ∃ state, (some "state", .text (some state)) ∈ members ∧
    attempt.state = RunState.ofText state
  detailed : ∀ details, (some "stateDetails", .text (some details)) ∈ members →
    attempt.details = details
  bare : (∀ details, (some "stateDetails", .text (some details)) ∉ members) → attempt.details = ""

/-- A page as the members of its object say. -/
structure AttemptPage.IsOf (page : AttemptPage) (members : List (Option String × Json)) : Prop where
  listed : ∀ items, (some "jobRunAttempts", .array items) ∈ members →
    items.length < AttemptRecord.numberBound → page.attempts.length = items.length ∧
      ∀ (place : Nat) (fields : List (Option String × Json)),
        items[place]? = some (.object fields) →
        ∃ attempt, page.attempts[place]? = some attempt ∧ attempt.IsOf place fields
  empty : (∀ value, (some "jobRunAttempts", value) ∉ members) → page.attempts = []
  last : page.nextToken = none ↔ (∀ value, (some "nextToken", value) ∉ members) ∨
    (some "nextToken", .null) ∈ members ∨ (some "nextToken", .text (some "")) ∈ members
  more : ∀ token, page.nextToken = some token → (some "nextToken", .text (some token)) ∈ members

/-- An attempt that was read is as its members say. -/
theorem AttemptRecord.isOf_of_ofJson? {record : AttemptRecord} {place : Nat}
    (h : ofJson? (.object members) = some record) (hplace : place + 1 < numberBound) :
    (record.toAttempt place).IsOf place members := by
  rw [ofJson?_object] at h
  rcases ite_eq_iff.mp h with ⟨_, h⟩ | ⟨_, h⟩
  · cases h
  · rcases Option.bind_eq_some_iff.mp h with ⟨number, hnumber, h⟩
    rcases Option.bind_eq_some_iff.mp h with ⟨state, hstate, h⟩
    rcases Option.bind_eq_some_iff.mp hstate with ⟨field, hfield, hstate⟩
    rcases Option.map_eq_some_iff.mp h with ⟨details, hdetails, rfl⟩
    refine ⟨fun n hn => ?_, fun hnone => ?_, ?_, fun text htext => ?_, fun hnone => ?_⟩
    · -- Its own number is below the bound and is kept.
      have hsolid : Json.number n ≠ .null := by simp only [ne_eq, reduceCtorEq, not_false_eq_true]
      rcases (Json.optionalField?_eq_some hnumber).2 _ hn hsolid with ⟨hread, hsome⟩
      rcases Option.ne_none_iff_exists'.mp hsome with ⟨own, rfl⟩
      rcases Option.bind_eq_some_iff.mp hread with ⟨value, hvalue, hread⟩
      rcases ite_eq_iff.mp hread with ⟨_, hread⟩ | ⟨_, hread⟩
      · rw [toAttempt, Option.getD_some, hvalue, hread]
      · cases hread
    · -- Nothing but a number could have been read there.
      have hcounted : number = none := by
        refine Option.eq_none_iff_forall_ne_some.mpr fun own hown => ?_
        rw [hown] at hnumber
        rcases Json.exists_of_optionalField? hnumber with ⟨value, hvalue, hread⟩
        cases value with
        | number n => exact hnone n hvalue
        | _ => cases hread
      rw [toAttempt, hcounted, Option.getD_none, Nat.mod_eq_of_lt hplace]
    · cases field with
      | none => cases hstate
      | some value =>
          cases value with
          | text content =>
              have hcontent : content = some state := hstate
              rw [hcontent] at hfield
              refine ⟨state, (Json.mem_iff_of_field? hfield).mpr rfl, ?_⟩
              rw [toAttempt]
          | _ => cases hstate
    · rw [toAttempt, (Json.mem_iff_of_optionalField? hdetails).mp htext, Option.getD_some]
    · cases hsome : details with
      | none => rfl
      | some text =>
          exact absurd ((Json.mem_iff_of_optionalField? hdetails).mpr hsome) (hnone text)

/-- An attempt without a state is not read. -/
theorem AttemptRecord.ofJson?_of_stateless (h : ∀ value, (some "state", value) ∉ members) :
    ofJson? (.object members) = none := by
  rw [ofJson?_object]
  split
  · rfl
  · have hnone : (Json.field? members "state").bind Json.required? = none := by
      cases hfield : Json.field? members "state" with
      | none => rfl
      | some field =>
          cases field with
          | none => rfl
          | some value => exact absurd ((Json.mem_iff_of_field? hfield).mpr rfl) (h value)
    rw [hnone]
    exact Option.bind_fun_none _

namespace AttemptPage

theorem isOf_of_ofJson? {page : AttemptPage} (h : ofJson? (.object members) = some page) :
    page.IsOf members := by
  rw [ofJson?_object] at h
  rcases ite_eq_iff.mp h with ⟨_, h⟩ | ⟨_, h⟩
  · cases h
  · rcases Option.bind_eq_some_iff.mp h with ⟨records, hrecords, h⟩
    rcases Option.bind_eq_some_iff.mp hrecords with ⟨field, hfield, hrecords⟩
    rcases Option.map_eq_some_iff.mp h with ⟨token, htoken, rfl⟩
    refine ⟨fun items hitems hlength => ?_, fun hnone => ?_, ?_, fun text htext => ?_⟩
    · rw [(Json.mem_iff_of_field? hfield).mp hitems] at hrecords
      have hread := forall₂_of_mapM hrecords
      refine ⟨List.length_mapIdx.trans hread.length_eq.symm, fun place fields hplace => ?_⟩
      rcases getElem?_of_forall₂ hread hplace with ⟨record, hrecord, hfields⟩
      refine ⟨record.toAttempt place, ?_, AttemptRecord.isOf_of_ofJson? hfields ?_⟩
      · rw [ofRecords, List.getElem?_mapIdx, hrecord, Option.map_some]
      · have hbound := (List.getElem?_eq_some_iff.mp hplace).1
        omega
    · cases field with
      | none => cases hrecords; rfl
      | some value => exact absurd ((Json.mem_iff_of_field? hfield).mpr rfl) (hnone value)
    · -- An empty token is read as a text, and is dropped after that.
      rw [← or_assoc, ← (Json.optionalField?_eq_some htoken).1,
        Json.mem_iff_of_optionalField? htoken, ofRecords]
      cases token with
      | none => exact iff_of_true rfl (.inl rfl)
      | some text => simp only [Option.filter_some, String.isEmpty_iff, Bool.not_eq_true',
          ite_eq_right_iff, reduceCtorEq, imp_false, Bool.not_eq_false, false_or,
          Option.some.injEq]
    · have hsome := (Option.filter_eq_some_iff.mp htext).1
      exact (Json.mem_iff_of_optionalField? htoken).mpr hsome

/-- A page with an attempt that has no state is not read. -/
theorem ofJson?_of_stateless {items : List Json} {fields : List (Option String × Json)}
    (hitems : (some "jobRunAttempts", .array items) ∈ members) (hfields : .object fields ∈ items)
    (hstate : ∀ value, (some "state", value) ∉ fields) : ofJson? (.object members) = none := by
  rw [ofJson?_object]
  split
  · rfl
  · have hnone : (Json.field? members "jobRunAttempts").bind records? = none := by
      refine Option.eq_none_iff_forall_ne_some.mpr fun records hrecords => ?_
      rcases Option.bind_eq_some_iff.mp hrecords with ⟨field, hfield, hrecords⟩
      rw [(Json.mem_iff_of_field? hfield).mp hitems] at hrecords
      -- The attempt would have been read at its place.
      rcases List.mem_iff_getElem?.mp hfields with ⟨place, hplace⟩
      rcases getElem?_of_forall₂ (forall₂_of_mapM hrecords) hplace with ⟨record, _, hread⟩
      rw [AttemptRecord.ofJson?_of_stateless hstate] at hread
      cases hread
    rw [hnone]
    rfl

end AttemptPage

end Contents

namespace AttemptPage

/-- The page that the text of an answer describes. -/
def ofText? (text : String) : Option AttemptPage := (Json.read? text).bind ofJson?

/-- It is what is read of the answer to a call, if all of it arrived. -/
theorem read_attempts_iff {response : HttpResponse} {text : String} {page : AttemptPage}
    (hcomplete : response.complete = true) (htext : Utf8.text? response.body = some text)
    (handle : RunHandle) (token : Option String) :
    Call.read response (.attempts handle token) = .ok page ↔ ofText? text = some page := by
  simp only [Call.read, Call.readJson, hcomplete, if_true, Json.readBytes?_of_text? htext]
  rw [← ofText?]
  cases ofText? text with
  | none => simp only [reduceCtorEq]
  | some found => rw [Except.ok.injEq, Option.some.injEq]

/-- What a page says, read from any text. Every text that spells the object is read alike,
    and so is every text that spells it after any number of edits and reversals of edits.
    What is read says what the members say. Without the state of an attempt nothing is
    read. -/
theorem reads_in_any_layout {text : String} {members : List (Option String × Json)}
    (h : Json.Spells text (.object members)) :
    (∀ other written, Relation.EqvGen Relaid (.object members) other →
      Json.Spells written other → ofText? written = ofText? text) ∧
      (∀ page, ofText? text = some page → page.IsOf members) ∧
      ∀ items fields, (some "jobRunAttempts", .array items) ∈ members → .object fields ∈ items →
        (∀ value, (some "state", value) ∉ fields) → ofText? text = none := by
  have hread : ∀ {written value}, Json.Spells written value → ofText? written = ofJson? value := by
    intro written value hspells
    rw [ofText?, Json.read?_iff_spells.mpr hspells, Option.bind_some]
  refine ⟨fun other written hrelaid hwritten => ?_, fun page hpage => ?_,
    fun items fields hitems hfields hstate => ?_⟩
  · rw [hread hwritten, hread h]
    exact (ofJson?_of_eqvGen hrelaid).symm
  · rw [hread h] at hpage
    exact isOf_of_ofJson? hpage
  · rw [hread h]
    exact ofJson?_of_stateless hitems hfields hstate

/-- White space, a member that is not known and nulls in place of fields that are absent
    change nothing. -/
theorem reads_in_any_layout_spaced :
    let text := "\x7b\"jobRunAttempts\":[\x7b\"state\":\"SUCCESS\"\x7d],\"nextToken\":null\x7d"
    let written := "\x7b \"id\":[\x7b\x7d] ,\n\"jobRunAttempts\":" ++
      "[\x7b\"attempt\":null,\"state\":\"SUCCESS\"\x7d]\x7d"
    ofText? text = some ⟨[⟨1, .success, ""⟩], none⟩ ∧ ofText? written = ofText? text := by
  have hstate : Relaid
      (.object [(some "jobRunAttempts", .array [.object [(some "state", .text (some "SUCCESS"))]])])
      (.object [(some "jobRunAttempts", .array [.object [(some "attempt", .null),
        (some "state", .text (some "SUCCESS"))]])]) := by
    refine @Relaid.attempt [] [] _ _ [] [] (@Json.Edited.nulled _ _ [] _ _ (by decide) ?_)
    intro value hmem
    exact absurd (Prod.mk.inj (List.mem_singleton.mp hmem)).1 (by decide)
  have hmore : Relaid
      (.object [(some "jobRunAttempts", .array [.object [(some "attempt", .null),
        (some "state", .text (some "SUCCESS"))]])])
      (.object [(some "id", .array [.object []]),
        (some "jobRunAttempts", .array [.object [(some "attempt", .null),
          (some "state", .text (some "SUCCESS"))]])]) :=
    .page (@Json.Edited.inserted _ _ [] _ _ _ (by decide))
  have htoken : Relaid
      (.object [(some "jobRunAttempts", .array [.object [(some "state", .text (some "SUCCESS"))]])])
      (.object [(some "jobRunAttempts", .array [.object [(some "state", .text (some "SUCCESS"))]]),
        (some "nextToken", .null)]) := by
    refine .page (@Json.Edited.nulled _ _ [_] [] _ (by decide) ?_)
    intro value hmem
    exact absurd (Prod.mk.inj (List.mem_singleton.mp hmem)).1 (by decide)
  -- From the one object to the other: a null less, a null more, a member more.
  have hrelaid := (Relation.EqvGen.rel _ _ htoken).symm.trans _ _ _
    ((Relation.EqvGen.rel _ _ hstate).trans _ _ _ (.rel _ _ hmore))
  dsimp only
  have hread : Json.read?
      "\x7b\"jobRunAttempts\":[\x7b\"state\":\"SUCCESS\"\x7d],\"nextToken\":null\x7d" =
      some (.object
        [(some "jobRunAttempts", .array [.object [(some "state", .text (some "SUCCESS"))]]),
          (some "nextToken", .null)]) := by
    rfl
  refine ⟨?_, ?_⟩
  · rw [ofText?, hread]
    decide
  · exact (reads_in_any_layout (Json.read?_iff_spells.mp hread)).1 _ _ hrelaid
      (Json.read?_iff_spells.mp (by rfl))

/-- A name that is half of a surrogate pair is none of the fields, but a page with it is not
    read. -/
theorem unread_of_unpaired_name :
    Json.Spells "\x7b\x7d" (.object []) ∧ ofText? "\x7b\x7d" = some ⟨[], none⟩ ∧
      Json.Spells "\x7b\"\\ud800\":null\x7d" (.object [(none, .null)]) ∧
      (∀ name ∈ fields, none ≠ some name) ∧ ofText? "\x7b\"\\ud800\":null\x7d" = none :=
  ⟨Json.read?_iff_spells.mp (by rfl), by rfl, Json.read?_iff_spells.mp (by rfl),
    by decide, by rfl⟩

end AttemptPage

end BatchRun
