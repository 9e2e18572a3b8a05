import BatchRun.Proofs.Text.Lines
import BatchRun.Proofs.Text.Trim
import BatchRun.Proofs.Xml.Reading
import BatchRun.Service.Failure

/-!
# Throttled Requests

Which failures are taken for a request to slow down.

The protocol lets a service write a code behind a namespace and before more that
does not matter, in a header or in the body. Each place has a clean-up of its own:
what stands behind the first colon is dropped from a header, what stands before the
last number sign from a JSON body, and nothing from an XML body. So a throttling
code is recognised in a header unless a namespace stands before it, and in a JSON
body unless something stands behind it; where one place misses a form, the other
one knows it. The status 429 is enough by itself.

## Main definitions

* `ServiceFailure.Place`: Where the code of an answer may stand.
* `HttpResponse.Carries`: An answer has a code at a place.
* `HttpResponse.code?`: The code that is extracted from an answer.
* `ServiceFailure.written`: A code as the protocol lets it be written.

## Theorems

* `HttpResponse.isThrottling_failure_iff`: The status or the extracted code
  decides.
* `ServiceFailure.not_opened_of_read?`: A JSON body is not taken for XML.
* `HttpResponse.Carries.code?_eq`: Which code is extracted.
* `HttpResponse.carries_document`: A document carries the text of its first `Code`.
* `HttpResponse.throttled_where_recognised`: Which forms are recognised where.
* `HttpResponse.throttled_overlooked`: A form that is recognised in the body and
  not in the header, and one that is recognised in the header and not in the body.
-/

namespace BatchRun

namespace ServiceFailure

/-- Where the code of an answer may stand. -/
inductive Place where
  | header
  | json
  | xml

/-- The clean-up of what stands there. -/
def Place.clean : Place → String → String
  | header => ofHeader
  | json => withoutNamespace
  | xml => id

/-- A code as the protocol lets it be written: perhaps behind a namespace, and
    perhaps before more. -/
def written (space : Option String) (code : String) (more : Option String) : String :=
  (space.map (· ++ "#")).getD "" ++ (code ++ (more.map (":" ++ ·)).getD "")

/-- A namespace has no mark of the form in it, and no white space. -/
def IsNamespace (space : String) : Prop :=
  space.toList.all (fun c => c != '#' && c != ':' && !Text.isBlank c) = true

/-- No throttling code has a mark of the form in it. -/
theorem plain_of_throttling {code : String} (h : code ∈ ServiceError.throttlingCodes) :
    ':' ∉ code.toList ∧ '#' ∉ code.toList := by
  simp only [ServiceError.throttlingCodes, List.mem_cons, List.not_mem_nil, or_false] at h
  rcases h with rfl | rfl | rfl | rfl <;> decide

/-- A header that goes on with a colon, if it goes on, has the code before it. -/
theorem ofHeader_append {code : String} (h : ':' ∉ code.toList) (more : Option String) :
    ofHeader (code ++ (more.map (":" ++ ·)).getD "") = code := by
  have htake : ∀ back : List Char, (∀ c, back.head? = some c → c = ':') →
      (code.toList ++ back).takeWhile (· ≠ ':') = code.toList := fun back hback => by
    refine Text.takeWhile_append_of_head (fun c hc => ?_) fun c hc => ?_
    · rw [decide_eq_true_eq]
      exact fun heq => h (heq ▸ hc)
    · rw [hback c hc]
      rfl
  rw [ofHeader, String.toList_append, htake, String.ofList_toList]
  intro c hc
  cases more with
  | none => exact nomatch hc
  | some more =>
      simp only [Option.map_some, Option.getD_some, String.toList_append, String.reduceToList,
        List.singleton_append, List.head?_cons, Option.some.injEq] at hc
      exact hc.symm

/-- In a header a namespace is part of the code, and what stands behind a colon is
    not. -/
theorem ofHeader_written {space : Option String}
    (hspace : ∀ name, space = some name → IsNamespace name) {code : String}
    (hcode : ':' ∉ code.toList) (more : Option String) :
    ofHeader (written space code more) = written space code none := by
  have hplain : ':' ∉ (written space code none).toList := by
    cases space with
    | none =>
        simpa only [written, Option.map_none, Option.getD_none, String.empty_append,
          String.append_empty] using hcode
    | some name =>
        simp only [written, Option.map_some, Option.getD_some, Option.map_none, Option.getD_none,
          String.append_empty, String.toList_append, List.mem_append, not_or, String.reduceToList,
          List.mem_singleton]
        refine ⟨⟨fun hmem => ?_, by decide⟩, hcode⟩
        have hcolon := List.all_eq_true.mp (hspace name rfl) ':' hmem
        exact absurd hcolon (by decide)
  have hsplit : written space code more =
      written space code none ++ (more.map (":" ++ ·)).getD "" := by
    simp only [written, Option.map_none, Option.getD_none, String.append_empty, String.append_assoc]
  rw [hsplit, ofHeader_append hplain]

theorem withoutNamespace_of_not_mem {code : String} (h : '#' ∉ code.toList) :
    withoutNamespace code = code := by
  unfold withoutNamespace
  cases hcut : Text.cutAtLast '#' code.toList with
  | none => rfl
  | some cut =>
      rw [(Text.eq_of_cutAtLast hcut).1] at h
      exact absurd (List.mem_append_right _ List.mem_cons_self) h

/-- What stands before the last number sign does not matter. -/
theorem withoutNamespace_append (front : String) {back : String} (h : '#' ∈ back.toList) :
    withoutNamespace (front ++ back) = withoutNamespace back := by
  unfold withoutNamespace
  cases hcut : Text.cutAtLast '#' back.toList with
  | none => exact absurd h (Text.cutAtLast_eq_none hcut)
  | some cut =>
      rcases Text.eq_of_cutAtLast hcut with ⟨hback, hlast⟩
      rw [String.toList_append, hback, ← List.append_assoc, Text.cutAtLast_append_cons hlast]

theorem withoutNamespace_sign (code : String) :
    withoutNamespace ("#" ++ code) = withoutNamespace code := by
  by_cases h : '#' ∈ code.toList
  · exact withoutNamespace_append "#" h
  · have hsplit : ("#" ++ code).toList = [] ++ '#' :: code.toList := by
      simp only [String.toList_append, String.reduceToList, List.singleton_append, List.nil_append]
    rw [withoutNamespace_of_not_mem h, withoutNamespace, hsplit, Text.cutAtLast_append_cons h]
    exact String.ofList_toList

/-- In a JSON body a namespace is no part of the code. -/
theorem withoutNamespace_written (space : Option String) (code : String) (more : Option String) :
    withoutNamespace (written space code more) =
      withoutNamespace (code ++ (more.map (":" ++ ·)).getD "") := by
  cases space with
  | none => rw [written, Option.map_none, Option.getD_none, String.empty_append]
  | some name =>
      have hmem : '#' ∈ ("#" ++ (code ++ (more.map (":" ++ ·)).getD "")).toList := by
        rw [String.toList_append]
        exact List.mem_append_left _ (by decide)
      rw [written, Option.map_some, Option.getD_some, String.append_assoc,
        withoutNamespace_append name hmem, withoutNamespace_sign]

/-- A throttling code is recognised in a header unless a namespace stands before
    it. -/
theorem ofHeader_mem_iff {space : Option String}
    (hspace : ∀ name, space = some name → IsNamespace name) {code : String}
    (h : code ∈ ServiceError.throttlingCodes) (more : Option String) :
    ofHeader (written space code more) ∈ ServiceError.throttlingCodes ↔ space = none := by
  rw [ofHeader_written hspace (plain_of_throttling h).1]
  cases space with
  | none =>
      simpa only [written, Option.map_none, Option.getD_none, String.empty_append,
        String.append_empty, iff_true] using h
  | some name =>
      refine iff_of_false (fun hmem => (plain_of_throttling hmem).2 ?_) (Option.some_ne_none name)
      simp only [written, Option.map_some, Option.getD_some, String.toList_append, List.mem_append]
      exact Or.inl (Or.inr (by decide))

/-- A throttling code is recognised in a JSON body unless something stands behind
    it, of which then the part behind the last number sign is taken for the
    code. -/
theorem withoutNamespace_mem_iff (space : Option String) {code : String}
    (h : code ∈ ServiceError.throttlingCodes) (more : Option String) :
    withoutNamespace (written space code more) ∈ ServiceError.throttlingCodes ↔
      ∀ rest, more = some rest →
        '#' ∈ rest.toList ∧ withoutNamespace rest ∈ ServiceError.throttlingCodes := by
  rw [withoutNamespace_written]
  cases more with
  | none =>
      rw [Option.map_none, Option.getD_none, String.append_empty,
        withoutNamespace_of_not_mem (plain_of_throttling h).2]
      exact iff_of_true h fun _ hno => nomatch hno
  | some rest =>
      simp only [Option.map_some, Option.getD_some, Option.some.injEq, forall_eq']
      by_cases hsign : '#' ∈ rest.toList
      · rw [← String.append_assoc, withoutNamespace_append _ hsign, and_iff_right hsign]
      · -- Without another sign the colon is still there, and no throttling code has one.
        have hplain : '#' ∉ (code ++ (":" ++ rest)).toList := by
          simp only [String.toList_append, List.mem_append, not_or, String.reduceToList,
            List.mem_singleton]
          exact ⟨(plain_of_throttling h).2, by decide, hsign⟩
        rw [withoutNamespace_of_not_mem hplain]
        refine iff_of_false (fun hmem => (plain_of_throttling hmem).1 ?_) fun hno => hsign hno.1
        simp only [String.toList_append, List.mem_append]
        exact Or.inr (Or.inl (by decide))

/-- A text that begins with an angle bracket, blanks apart, is not JSON. -/
theorem not_opened_of_read? {body : String} {value : Json} (h : Json.read? body = some value) :
    (body.toList.dropWhile Text.isBlank).head? ≠ some '<' := by
  suffices hall : ∀ text : List Char, (text.dropWhile Text.isBlank).head? = some '<' →
      Json.tokensFrom .between text = none by
    intro hopened
    rw [Json.read?, Json.tokens?, hall _ hopened] at h
    exact nomatch h
  intro text
  induction text with
  | nil => exact fun hno => nomatch hno
  | cons c rest ih =>
      intro hopened
      by_cases hc : Text.isBlank c = true
      · rw [List.dropWhile_cons_of_pos hc] at hopened
        -- White space of JSON is passed over, and any other one is an error.
        have hstart : Json.Scan.start c = some ([], .between) ∨ Json.Scan.start c = none := by
          have hblanks : Text.blanks.all (fun d => decide (Json.Scan.start d = some ([], .between) ∨
              Json.Scan.start d = none)) = true := by decide
          exact of_decide_eq_true (List.all_eq_true.mp hblanks c (List.contains_iff_mem.mp hc))
        rw [Json.tokensFrom]
        rcases hstart with hpassed | herror
        · simp only [Json.Scan.step, hpassed, ih hopened, Option.map_none]
        · simp only [Json.Scan.step, herror]
      · rw [List.dropWhile_cons_of_neg hc, List.head?_cons, Option.some.injEq] at hopened
        rw [hopened]
        rfl

end ServiceFailure

namespace HttpResponse

open ServiceFailure

/-- An answer has a code at a place. A body counts only if there is no header, and
    is one of JSON or XML by what it says. -/
inductive Carries (response : HttpResponse) : Place → String → Prop
  | header {raw : String} (hheader : response.header? codeHeader = some raw) :
      Carries response .header raw
  | json {body raw : String} {value : Json} (hheader : response.header? codeHeader = none)
      (hbody : response.text? = some body) (hvalue : Json.read? body = some value)
      (hdepth : value.depth ≤ depthLimit) (hplain : value.isPlain = true)
      (hcode : member? value "__type" = some raw) : Carries response .json raw
  | xml {body raw : String} {root : Xml.Node} (hheader : response.header? codeHeader = none)
      (hbody : response.text? = some body)
      (hopened : (body.toList.dropWhile Text.isBlank).head? = some '<')
      (hroot : Xml.read? body = some root)
      (hcode : (root.find? "Code").bind Xml.Node.text? = some raw) : Carries response .xml raw

/-- The code that is extracted from an answer. -/
def code? (response : HttpResponse) : Option String :=
  ((response.header? codeHeader).map ofHeader).or (ofBody (response.text?.getD brokenBody)).1

theorem failure_eq (response : HttpResponse) :
    ∃ message, response.failure =
      ServiceError.ofResponse response.status (response.code?.getD "") message :=
  ⟨_, rfl⟩

/-- The status or the extracted code decides whether a failure asks for
    patience. -/
theorem isThrottling_failure_iff (response : HttpResponse) :
    response.failure.isThrottling = true ↔
      response.status = 429 ∨ ∃ code ∈ ServiceError.throttlingCodes,
        response.code? = some code := by
  rcases response.failure_eq with ⟨message, hfailure⟩
  have hcode : response.code?.getD "" ∈ ServiceError.throttlingCodes ↔
      ∃ code ∈ ServiceError.throttlingCodes, response.code? = some code := by
    cases response.code? with
    | none => exact iff_of_false (by decide) fun ⟨_, _, hno⟩ => nomatch hno
    | some code => simp only [Option.getD_some, Option.some.injEq, exists_eq_right']
  rw [hfailure, ServiceError.ofResponse, ← hcode]
  split
  · next hthrottled => exact iff_of_true rfl hthrottled
  · next hother =>
    refine iff_of_false ?_ hother
    split <;> exact Bool.false_ne_true

/-- What is extracted from an answer is what it carries, cleaned up. -/
theorem Carries.code?_eq {response : HttpResponse} {place : Place} {raw : String}
    (h : response.Carries place raw) : response.code? = some (place.clean raw) := by
  unfold code?
  cases h with
  | header hheader => rw [hheader]; rfl
  | json hheader hbody hvalue hdepth hplain hcode =>
      rw [hheader, hbody, Option.getD_some, ofBody, if_neg (not_opened_of_read? hvalue),
        ofJson, hvalue]
      simp only [Option.filter_some, hdepth, hplain, decide_true, Bool.and_self, if_true, hcode]
      rfl
  | xml hheader hbody hopened hroot hcode =>
      rw [hheader, hbody, Option.getD_some, ofBody, if_pos hopened, ofXml, hroot]
      exact hcode

theorem Carries.isThrottling_iff {response : HttpResponse} {place : Place} {raw : String}
    (h : response.Carries place raw) :
    response.failure.isThrottling = true ↔
      response.status = 429 ∨ place.clean raw ∈ ServiceError.throttlingCodes := by
  rw [isThrottling_failure_iff, h.code?_eq]
  simp only [Option.some.injEq, exists_eq_right']

theorem opened_document (document : Xml.Document) :
    (document.text.toList.dropWhile Text.isBlank).head? = some '<' := by
  have hblank : ∀ c ∈ document.before, Text.isBlank c = true := by
    intro c hc
    have hc := List.all_eq_true.mp document.blank_before c hc
    simp only [Xml.isBlank, Bool.or_eq_true, beq_iff_eq] at hc
    rcases hc with (rfl | rfl) | rfl
    all_goals decide
  have hmark : Text.isBlank '<' = false := by decide
  have hroot : ∃ rest, document.root.written ++ document.after = '<' :: rest := by
    cases document.root with
    | element tag content => exact ⟨_, rfl⟩
    | empty tag => exact ⟨_, rfl⟩
  rcases hroot with ⟨rest, hroot⟩
  rw [Xml.Document.text, String.toList_ofList, Xml.Document.written, hroot]
  cases document.isDeclared with
  | true => rfl
  | false =>
      rw [if_neg Bool.false_ne_true, List.nil_append, List.dropWhile_append_of_pos hblank,
        List.dropWhile_cons_of_neg (Bool.eq_false_iff.mp hmark), List.head?_cons]

/-- A document carries the text of the first element that is called `Code`, wherever it
    stands in it. -/
theorem carries_document {response : HttpResponse} {document : Xml.Document} {raw : String}
    (hheader : response.header? codeHeader = none) (hbody : response.text? = some document.text)
    (hcode : (document.root.node.find? "Code").bind Xml.Node.text? = some raw) :
    response.Carries .xml raw :=
  .xml hheader hbody (opened_document document) document.read?_text hcode

/-- Which forms of a throttling code are recognised where, by any status but 429.
    In a header that is every form without a namespace, in a JSON body every form
    without more behind the code, unless that ends with a number sign and a
    throttling code itself, and in an XML body the code alone. Nothing else is ever
    taken for throttling. -/
theorem throttled_where_recognised (response : HttpResponse) :
    (∀ code ∈ ServiceError.throttlingCodes, ∀ space : Option String,
      (∀ name, space = some name → IsNamespace name) → ∀ more : Option String,
        (response.Carries .header (written space code more) →
          (response.failure.isThrottling = true ↔ response.status = 429 ∨ space = none)) ∧
        (response.Carries .json (written space code more) →
          (response.failure.isThrottling = true ↔ response.status = 429 ∨
            ∀ rest, more = some rest →
              '#' ∈ rest.toList ∧ withoutNamespace rest ∈ ServiceError.throttlingCodes)) ∧
        (response.Carries .xml code → response.failure.isThrottling = true)) ∧
      (response.status = 429 → response.failure.isThrottling = true) ∧
      (response.status ≠ 429 → (∀ code, response.code? = some code →
        code ∉ ServiceError.throttlingCodes) → response.failure.isThrottling = false) := by
  refine ⟨fun code hcode space hspace more => ⟨fun h => ?_, fun h => ?_, fun h => ?_⟩, fun h => ?_,
    fun hstatus hother => ?_⟩
  · rw [h.isThrottling_iff, Place.clean, ofHeader_mem_iff hspace hcode]
  · rw [h.isThrottling_iff, Place.clean, withoutNamespace_mem_iff space hcode]
  · exact h.isThrottling_iff.mpr (Or.inr hcode)
  · exact response.isThrottling_failure_iff.mpr (Or.inl h)
  · rw [Bool.eq_false_iff, ne_eq, isThrottling_failure_iff]
    rintro (h | ⟨code, hcode, hextracted⟩)
    · exact hstatus h
    · exact hother code hextracted hcode

/-- An answer with a header and nothing else. -/
def headed (value : String) : HttpResponse :=
  ⟨400, [(codeHeader, Utf8.encode value)], [], true⟩

/-- An answer whose body is a JSON object with a code. -/
def typed (code : String) : HttpResponse :=
  ⟨400, [], Utf8.encode ("\x7b\"__type\":\"" ++ code ++ "\"\x7d"), true⟩

/-- A header with more behind the code, and a body with a namespace before it. -/
theorem throttled_where_recognised_both :
    ((headed "ThrottlingException:http://internal").Carries .header
        (written none "ThrottlingException" (some "http://internal")) ∧
      (headed "ThrottlingException:http://internal").failure.isThrottling = true) ∧
    ((typed "com.amazon#SlowDown").Carries .json (written (some "com.amazon") "SlowDown" none) ∧
      (typed "com.amazon#SlowDown").failure.isThrottling = true) := by
  have hheader : (headed "ThrottlingException:http://internal").Carries .header
      (written none "ThrottlingException" (some "http://internal")) := .header (by decide +kernel)
  have hbody : (typed "com.amazon#SlowDown").Carries .json
      (written (some "com.amazon") "SlowDown" none) := by
    have hread : Json.read? "\x7b\"__type\":\"com.amazon#SlowDown\"\x7d" =
        some (.object [(some "__type", .text (some "com.amazon#SlowDown"))]) := rfl
    exact .json rfl (by decide +kernel) hread (by decide) rfl (by decide +kernel)
  have hspace : ∀ name, some "com.amazon" = some name → IsNamespace name := fun name hname => by
    rw [Option.some.injEq] at hname
    rw [← hname]
    unfold IsNamespace
    decide +kernel
  refine ⟨⟨hheader, ?_⟩, hbody, ?_⟩
  · exact (((throttled_where_recognised _).1 "ThrottlingException" (by decide) none
      (fun _ hno => nomatch hno) _).1 hheader).mpr (Or.inr rfl)
  · exact (((throttled_where_recognised _).1 "SlowDown" (by decide) (some "com.amazon")
      hspace none).2.1 hbody).mpr (Or.inr fun _ hno => nomatch hno)

/-- A throttling code behind a namespace is not recognised in a header, and one with
    more behind it is not recognised in a JSON body. -/
theorem throttled_overlooked :
    ((headed "com.amazon#ThrottlingException").Carries .header
        (written (some "com.amazon") "ThrottlingException" none) ∧
      (headed "com.amazon#ThrottlingException").failure.isThrottling = false) ∧
    ((typed "ThrottlingException:slow").Carries .json
        (written none "ThrottlingException" (some "slow")) ∧
      (typed "ThrottlingException:slow").failure.isThrottling = false) := by
  have hheader : (headed "com.amazon#ThrottlingException").Carries .header
      (written (some "com.amazon") "ThrottlingException" none) := .header (by decide +kernel)
  have hbody : (typed "ThrottlingException:slow").Carries .json
      (written none "ThrottlingException" (some "slow")) := by
    have hread : Json.read? "\x7b\"__type\":\"ThrottlingException:slow\"\x7d" =
        some (.object [(some "__type", .text (some "ThrottlingException:slow"))]) := rfl
    exact .json rfl (by decide +kernel) hread (by decide) rfl (by decide +kernel)
  refine ⟨⟨hheader, ?_⟩, hbody, ?_⟩
  · rw [Bool.eq_false_iff, ne_eq, hheader.isThrottling_iff]
    decide +kernel
  · rw [Bool.eq_false_iff, ne_eq, hbody.isThrottling_iff]
    decide +kernel

end HttpResponse

end BatchRun
