import BatchRun.Proofs.Http.Sending
import BatchRun.Proofs.Text.Lines
import BatchRun.Proofs.Text.Runs
import BatchRun.Proofs.Url.Visible
import Mathlib.Data.Char
import Mathlib.Data.List.Lex
import Mathlib.Data.Prod.Lex

/-!
# What a Signature Binds

Requests that have the same canonical text.

The canonical text is a line for the method, one for the path, one for the query, one
for each signed header, an empty one, and one each for the names of these headers and
the digest of the body. Only the method may have a line break in it, so the lines are
counted from the end. How many headers there are is told by the line of their names,
and a header is cut at the first colon, which no name has. So two requests with the
same text have the same parts.

A query is written with its pairs in order, and read again it has just these pairs. Two
queries are therefore written alike exactly if one has the pairs of the other in some
order.

A session token might hold anything, a line break and a forged header behind it. But
such a token cannot be sent, and a request that cannot be sent is not signed.

## Main definitions

* `Signer.pairText`: A pair of a query as it is written.
* `Signer.headerLine`: The line for a signed header.
* `Signer.IsLinewise`: Parts of a canonical text that can be told apart in it.
* `Signer.SignsAlike`: Two requests in all that a signature binds.

## Theorems

* `Signer.queryPairs_canonicalQuery`: The pairs of a written query.
* `Signer.canonicalQuery_eq_iff`: Queries that are written alike.
* `Signer.splitOn_canonicalText`: The lines of a canonical text.
* `Signer.canonicalText_eq_iff`: Texts whose parts can be told apart.
* `Signer.canonicalRequest_eq_iff`: A signature binds the request and nothing else.
-/

namespace BatchRun

namespace Signer

section Query

variable {query other : List Char}

/-- A pair of a query as it is written. -/
def pairText (pair : List Char × List Char) : List Char := pair.1 ++ '=' :: pair.2

/-- The order of pairs is the lexicographic one. -/
theorem pairLe_iff {a b : List Char × List Char} :
    pairLe a b = true ↔ toLex a ≤ toLex b := by
  rw [Prod.Lex.toLex_le_toLex, pairLe, Bool.or_eq_true, Bool.and_eq_true, decide_eq_true_eq,
    beq_iff_eq, Bool.not_eq_true', decide_eq_false_iff_not, not_lt]

theorem pairwise_mergeSort_pairLe (pairs : List (List Char × List Char)) :
    (pairs.mergeSort pairLe).Pairwise fun a b => pairLe a b = true := by
  refine List.pairwise_mergeSort (fun a b c hab hbc => ?_) (fun a b => ?_) pairs
  · rw [pairLe_iff] at hab hbc ⊢
    exact le_trans hab hbc
  · rw [Bool.or_eq_true, pairLe_iff, pairLe_iff]
    exact le_total _ _

/-- The same pairs in some other order are the same when they are sorted. -/
theorem mergeSort_pairLe_of_perm {pairs others : List (List Char × List Char)}
    (h : pairs.Perm others) : pairs.mergeSort pairLe = others.mergeSort pairLe := by
  refine List.Perm.eq_of_pairwise (fun a b _ _ hab hba => ?_) (pairwise_mergeSort_pairLe pairs)
    (pairwise_mergeSort_pairLe others) ?_
  · rw [pairLe_iff] at hab hba
    exact toLex.injective (le_antisymm hab hba)
  · exact ((List.mergeSort_perm pairs pairLe).trans h).trans
      (List.mergeSort_perm others pairLe).symm

/-- A pair is written with what stands between two ampersands, and an equals sign if it
    is a bare name. -/
theorem mem_of_mem_pairText {pair : List Char × List Char} (h : pair ∈ queryPairs query) {c : Char}
    (hc : c ∈ pairText pair) : c = '=' ∨ c ∈ query ∧ c ≠ '&' := by
  rcases List.mem_map.mp h with ⟨piece, hpiece, rfl⟩
  have hin : c ∈ piece → c ∈ query ∧ c ≠ '&' := by
    intro hmem
    rcases Text.mem_of_mem_splitWhere (List.mem_filter.mp hpiece).1 hmem with ⟨hquery, hother⟩
    exact ⟨hquery, of_decide_eq_false hother⟩
  cases hcut : Text.cutAtFirst '=' piece with
  | none =>
      rw [hcut] at hc
      rcases List.mem_append.mp hc with hname | hsign
      · exact .inr (hin hname)
      · exact .inl (List.mem_singleton.mp hsign)
  | some found =>
      rw [hcut] at hc
      refine .inr (hin ?_)
      rw [Text.eq_of_cutAtFirst hcut]
      exact hc

/-- A name ends at the first equals sign, and a pair at the next ampersand. -/
theorem not_mem_of_mem_queryPairs {pair : List Char × List Char} (h : pair ∈ queryPairs query) :
    '=' ∉ pair.1 ∧ '&' ∉ pairText pair := by
  constructor
  · rcases List.mem_map.mp h with ⟨piece, _, rfl⟩
    cases hcut : Text.cutAtFirst '=' piece with
    | none => exact Text.cutAtFirst_eq_none hcut
    | some found => exact Text.not_mem_of_cutAtFirst hcut
  · intro hand
    rcases mem_of_mem_pairText h hand with heq | ⟨_, hne⟩
    · exact absurd heq (by decide)
    · exact hne rfl

/-- Pairs that are written and read are the same pairs. -/
theorem queryPairs_joinWith {pairs : List (List Char × List Char)}
    (h : ∀ pair ∈ pairs, '=' ∉ pair.1 ∧ '&' ∉ pairText pair) :
    queryPairs (Text.joinWith ['&'] (pairs.map pairText)) = pairs := by
  have hpieces : (Text.splitOn '&' (Text.joinWith ['&'] (pairs.map pairText))).filter
      (!·.isEmpty) = pairs.map pairText := by
    by_cases hnil : pairs = []
    · rw [hnil]
      rfl
    · rw [Text.splitOn_joinWith (fun hmap => hnil (List.map_eq_nil_iff.mp hmap))]
      · refine List.filter_eq_self.mpr fun piece hpiece => ?_
        rcases List.mem_map.mp hpiece with ⟨pair, _, rfl⟩
        rw [pairText, List.isEmpty_eq_false_iff.mpr
          (List.append_ne_nil_of_right_ne_nil _ (List.cons_ne_nil _ _)), Bool.not_false]
      · intro piece hpiece
        rcases List.mem_map.mp hpiece with ⟨pair, hpair, rfl⟩
        exact (h pair hpair).2
  rw [queryPairs, hpieces, List.map_map]
  refine (List.map_congr_left fun pair hpair => ?_).trans (List.map_id pairs)
  rw [Function.comp_apply, pairText, Text.cutAtFirst_append_cons (h pair hpair).1,
    Option.getD_some, id]

/-- A query that is written has the pairs it was written for, in order. -/
theorem queryPairs_canonicalQuery (query : List Char) :
    queryPairs (canonicalQuery query) = (queryPairs query).mergeSort pairLe :=
  queryPairs_joinWith fun _ hpair => not_mem_of_mem_queryPairs (List.mem_mergeSort.mp hpair)

/-- Two queries are written alike exactly if they have the same pairs, in whatever
    order. -/
theorem canonicalQuery_eq_iff : canonicalQuery query = canonicalQuery other ↔
    (queryPairs query).Perm (queryPairs other) := by
  constructor
  · intro h
    have hsorted : (queryPairs query).mergeSort pairLe = (queryPairs other).mergeSort pairLe := by
      rw [← queryPairs_canonicalQuery, h, queryPairs_canonicalQuery]
    exact (List.mergeSort_perm _ pairLe).symm.trans
      (hsorted ▸ List.mergeSort_perm (queryPairs other) pairLe)
  · intro h
    rw [canonicalQuery, canonicalQuery, mergeSort_pairLe_of_perm h]

/-- Writing a query puts nothing new into it but the signs between its parts. -/
theorem mem_of_mem_canonicalQuery {c : Char} (h : c ∈ canonicalQuery query) :
    c = '&' ∨ c = '=' ∨ c ∈ query := by
  rcases Text.mem_of_mem_joinWith h with hand | ⟨piece, hpiece, hc⟩
  · exact .inl hand
  · rcases List.mem_map.mp hpiece with ⟨pair, hpair, rfl⟩
    exact .inr ((mem_of_mem_pairText (List.mem_mergeSort.mp hpair) hc).imp_right And.left)

end Query

section Lines

variable {request other : HttpRequest} {headers others : List (String × String)}
  {payload digest : String}

/-- The path that is signed. An empty one counts as the root. -/
def signedPath (url : Url) : String := if url.path.isEmpty then "/" else url.path

/-- The query that is signed. An absent one counts as empty. -/
def queryText (url : Url) : List Char := (url.query.getD "").toList

/-- A signed header as it counts: the white space around its value does not. -/
def shownHeader (header : String × String) : String × String := (header.1, Text.trim header.2)

/-- The line for a signed header. -/
def headerLine (header : String × String) : List Char :=
  header.1.toList ++ ':' :: (Text.trim header.2).toList

/-- The parts of a canonical text can be told apart in it: none but the method has a
    line break, and no name has a sign that stands behind names. -/
structure IsLinewise (request : HttpRequest) (headers : List (String × String))
    (payload : String) : Prop where
  path : '\n' ∉ (signedPath request.url).toList
  query : '\n' ∉ canonicalQuery (queryText request.url)
  given : headers ≠ []
  names : ∀ header ∈ headers,
    '\n' ∉ header.1.toList ∧ ':' ∉ header.1.toList ∧ ';' ∉ header.1.toList
  values : ∀ header ∈ headers, '\n' ∉ (Text.trim header.2).toList
  payload : '\n' ∉ payload.toList

theorem IsLinewise.headerLine (h : IsLinewise request headers payload) :
    ∀ header ∈ headers, '\n' ∉ headerLine header := by
  intro header hmem hbreak
  rcases List.mem_append.mp hbreak with hname | hvalue
  · exact (h.names header hmem).1 hname
  · rcases List.mem_cons.mp hvalue with hmark | hvalue
    · exact absurd hmark (by decide)
    · exact h.values header hmem hvalue

theorem canonicalText_eq (request : HttpRequest) (headers : List (String × String))
    (payload : String) : canonicalText request headers payload = "\n".intercalate
      [request.method, signedPath request.url,
        String.ofList (canonicalQuery (queryText request.url)),
        "".intercalate (headers.map fun header =>
          header.1 ++ ":" ++ Text.trim header.2 ++ "\n"),
        ";".intercalate (headers.map (·.1)), payload] := rfl

/-- A canonical text is its parts with line feeds between them. -/
theorem toList_canonicalText (request : HttpRequest) (headers : List (String × String))
    (payload : String) :
    (canonicalText request headers payload).toList =
      request.method.toList ++ '\n' :: ((signedPath request.url).toList ++
        '\n' :: (canonicalQuery (queryText request.url) ++
          '\n' :: ((headers.flatMap fun header => headerLine header ++ ['\n']) ++
            '\n' :: (Text.joinWith [';'] (headers.map (·.1.toList)) ++
              '\n' :: payload.toList)))) := by
  have hfeed : "\n".toList = ['\n'] := rfl
  have hcolon : ":".toList = [':'] := rfl
  have hblock : ("".intercalate (headers.map fun header =>
      header.1 ++ ":" ++ Text.trim header.2 ++ "\n")).toList =
        headers.flatMap fun header => headerLine header ++ ['\n'] := by
    rw [Text.toList_intercalate, String.toList_empty, Text.joinWith_nil, List.map_map,
      List.flatMap_def]
    refine congrArg List.flatten (List.map_congr_left fun header _ => ?_)
    simp only [Function.comp_apply, String.toList_append, headerLine, hfeed, hcolon,
      List.append_assoc, List.cons_append, List.nil_append]
  have hnames : (";".intercalate (headers.map (·.1))).toList =
      Text.joinWith [';'] (headers.map (·.1.toList)) := by
    rw [Text.toList_intercalate, List.map_map]
    rfl
  rw [canonicalText_eq, Text.toList_intercalate]
  simp only [List.map_cons, List.map_nil, hblock, hnames, String.toList_ofList]
  simp only [Text.joinWith, hfeed, List.append_assoc, List.cons_append, List.nil_append]

/-- Each line of a header ends with a line feed, and nothing is behind the last one. -/
theorem splitOn_headerLines (h : ∀ header ∈ headers, '\n' ∉ headerLine header) :
    Text.splitOn '\n' (headers.flatMap fun header => headerLine header ++ ['\n']) =
      headers.map headerLine ++ [[]] := by
  induction headers with
  | nil => rfl
  | cons header rest ih =>
      rw [List.forall_mem_cons] at h
      rw [List.flatMap_cons, List.append_assoc, List.singleton_append, Text.splitOn_append_cons,
        Text.splitOn_of_not_mem h.1, ih h.2]
      rfl

/-- The lines of a canonical text: those of the method, then one for each part. -/
theorem splitOn_canonicalText (h : IsLinewise request headers payload) :
    Text.splitOn '\n' (canonicalText request headers payload).toList =
      Text.splitOn '\n' request.method.toList ++
          [(signedPath request.url).toList, canonicalQuery (queryText request.url)] ++
        headers.map headerLine ++
          [[], Text.joinWith [';'] (headers.map (·.1.toList)), payload.toList] := by
  have hnames : '\n' ∉ Text.joinWith [';'] (headers.map (·.1.toList)) := by
    intro hbreak
    rcases Text.mem_of_mem_joinWith hbreak with hmark | ⟨name, hname, hmem⟩
    · exact absurd hmark (by decide)
    · rcases List.mem_map.mp hname with ⟨header, hheader, rfl⟩
      exact (h.names header hheader).1 hmem
  rw [toList_canonicalText, Text.splitOn_append_cons, Text.splitOn_append_cons,
    Text.splitOn_append_cons, Text.splitOn_append_cons, Text.splitOn_append_cons,
    Text.splitOn_of_not_mem h.path, Text.splitOn_of_not_mem h.query,
    splitOn_headerLines h.headerLine, Text.splitOn_of_not_mem hnames,
    Text.splitOn_of_not_mem h.payload]
  simp only [List.append_assoc, List.cons_append, List.nil_append]

/-- The names are read from their line. -/
theorem splitOn_names (h : IsLinewise request headers payload) :
    Text.splitOn ';' (Text.joinWith [';'] (headers.map (·.1.toList))) =
      headers.map (·.1.toList) := by
  refine Text.splitOn_joinWith (fun hnil => h.given (List.map_eq_nil_iff.mp hnil)) ?_
  intro name hname
  rcases List.mem_map.mp hname with ⟨header, hmem, rfl⟩
  exact (h.names header hmem).2.2

/-- The lines of headers tell their names and what their values count as. -/
theorem shown_of_headerLines (h : IsLinewise request headers payload)
    (h' : IsLinewise other others digest)
    (hlines : headers.map headerLine = others.map headerLine) :
    headers.map shownHeader = others.map shownHeader := by
  -- No name has a colon, so the first one of a line ends the name.
  have hread : ∀ headers : List (String × String), (∀ header ∈ headers, ':' ∉ header.1.toList) →
      (headers.map headerLine).map (fun line => (Text.cutAtFirst ':' line).map fun cut =>
        (String.ofList cut.1, String.ofList cut.2)) = (headers.map shownHeader).map some := by
    intro headers hnames
    rw [List.map_map, List.map_map]
    refine List.map_congr_left fun header hmem => ?_
    simp only [Function.comp_apply, headerLine, shownHeader, Option.map_some,
      Text.cutAtFirst_append_cons (hnames header hmem), String.ofList_toList]
  have hsome : (headers.map shownHeader).map some = (others.map shownHeader).map some := by
    rw [← hread headers fun header hmem => (h.names header hmem).2.1,
      ← hread others fun header hmem => (h'.names header hmem).2.1, hlines]
  exact (List.map_inj_right fun _ _ heq => Option.some.inj heq).mp hsome

/-- A canonical text is made of these parts alone. -/
theorem canonicalText_congr (hmethod : request.method = other.method)
    (hpath : signedPath request.url = signedPath other.url)
    (hquery : canonicalQuery (queryText request.url) = canonicalQuery (queryText other.url))
    (hheaders : headers.map shownHeader = others.map shownHeader) (payload : String) :
    canonicalText request headers payload = canonicalText other others payload := by
  have hshown : ∀ headers : List (String × String),
      (headers.map fun header => header.1 ++ ":" ++ Text.trim header.2 ++ "\n") =
        (headers.map shownHeader).map fun header => header.1 ++ ":" ++ header.2 ++ "\n" := by
    intro headers
    rw [List.map_map]
    rfl
  have hnames : ∀ headers : List (String × String),
      headers.map (·.1) = (headers.map shownHeader).map (·.1) := by
    intro headers
    rw [List.map_map]
    rfl
  rw [canonicalText_eq, canonicalText_eq, hshown headers, hshown others, hnames headers,
    hnames others, hmethod, hpath, hquery, hheaders]

/-- Two canonical texts whose parts can be told apart are the same exactly if the parts
    are. -/
theorem canonicalText_eq_iff (h : IsLinewise request headers payload)
    (h' : IsLinewise other others digest) :
    canonicalText request headers payload = canonicalText other others digest ↔
      request.method = other.method ∧ signedPath request.url = signedPath other.url ∧
        canonicalQuery (queryText request.url) = canonicalQuery (queryText other.url) ∧
        headers.map shownHeader = others.map shownHeader ∧ payload = digest := by
  constructor
  · intro htext
    have hlines := congrArg (fun text => Text.splitOn '\n' text.toList) htext
    simp only [splitOn_canonicalText h, splitOn_canonicalText h'] at hlines
    -- The last lines are three in both, and tell the names of the headers.
    obtain ⟨hfront, hlast⟩ := List.append_inj' hlines (by simp only [List.length_cons])
    simp only [List.cons.injEq, true_and, and_true] at hlast
    have hnames : headers.map (·.1.toList) = others.map (·.1.toList) := by
      rw [← splitOn_names h, hlast.1, splitOn_names h']
    -- So there are as many lines of headers, and two before them.
    have hlength : (headers.map headerLine).length = (others.map headerLine).length := by
      have hcount := congrArg List.length hnames
      simpa only [List.length_map] using hcount
    obtain ⟨hbefore, hheaders⟩ := List.append_inj' hfront hlength
    obtain ⟨hmethod, hurl⟩ := List.append_inj' hbefore (by simp only [List.length_cons])
    simp only [List.cons.injEq, and_true] at hurl
    refine ⟨?_, String.toList_inj.mp hurl.1, hurl.2, ?_, String.toList_inj.mp hlast.2⟩
    · have hjoined := congrArg (Text.joinWith ['\n']) hmethod
      rw [Text.joinWith_splitOn, Text.joinWith_splitOn] at hjoined
      exact String.toList_inj.mp hjoined
    · exact shown_of_headerLines h h' hheaders
  · rintro ⟨hmethod, hpath, hquery, hheaders, rfl⟩
    exact canonicalText_congr hmethod hpath hquery hheaders payload

end Lines

section Binding

variable {first second : Signer} {request other signed sent : HttpRequest} {now later : Instant}

theorem trim_payloadHash (request : HttpRequest) :
    Text.trim (payloadHash request) = payloadHash request :=
  Text.trim_of_visible fun _ hc => visible_of_isAlphanum (Hex.isAlphanum_of_mem_encode hc)

theorem trim_stamp (now : Instant) : Text.trim now.stamp = now.stamp :=
  Text.trim_of_visible fun _ hc => HttpRequest.visible_of_plain (Instant.mem_stamp hc)

/-- What is signed of a request can be told apart, if the request is signed at all. -/
theorem isLinewise_of_signAt (hurl : request.url.IsTidy)
    (h : first.signAt request now = .ok signed) :
    IsLinewise request (first.signedHeaders request now) (payloadHash request) := by
  rcases hurl.parts with ⟨hhost, hpath, hquery⟩
  have hhash : '\n' ∉ (payloadHash request).toList :=
    HttpRequest.not_mem_of_isSendable (isSendable_payloadHash request)
  refine ⟨?_, ?_, ?_, ?_, ?_, hhash⟩
  · unfold signedPath
    split
    · decide
    · exact hpath
  · intro hbreak
    rcases mem_of_mem_canonicalQuery hbreak with hmark | hmark | hmem
    · exact absurd hmark (by decide)
    · exact absurd hmark (by decide)
    · unfold queryText at hmem
      cases hsome : request.url.query with
      | none =>
          rw [hsome] at hmem
          exact absurd hmem List.not_mem_nil
      | some query =>
          rw [hsome] at hmem
          exact hquery query hsome hmem
  · exact List.cons_ne_nil _ _
  · simp only [signedHeaders_eq, List.forall_mem_cons]
    refine ⟨by decide, by decide, by decide, fun header hmem => ?_⟩
    rw [name_of_mem_tokenHeader hmem]
    decide
  · simp only [signedHeaders_eq, List.forall_mem_cons, hostText, hurl.trimmed,
      trim_payloadHash, trim_stamp]
    refine ⟨hhost, hhash, HttpRequest.not_mem_of_isSendable (isSendable_stamp now), ?_⟩
    -- A token with a line break could not be sent.
    intro header hmem hbreak
    have hsend : HttpRequest.IsSendable header.2 := by
      refine (signAt_eq_ok_iff.mp h).1 header ?_
      rw [sentHeaders_eq]
      exact List.mem_cons_of_mem _ (List.mem_cons_of_mem _ (List.mem_append_left _ hmem))
    exact HttpRequest.not_mem_of_isSendable hsend (Text.mem_of_mem_trim hbreak)

/-- Two signed requests in all that a signature binds. An empty path counts as the
    root, the pairs of the query count in any order, and the white space around a
    session token does not. -/
structure SignsAlike (first : Signer) (request : HttpRequest) (now : Instant) (second : Signer)
    (other : HttpRequest) (later : Instant) : Prop where
  method : request.method = other.method
  path : signedPath request.url = signedPath other.url
  query : (queryPairs (queryText request.url)).Perm (queryPairs (queryText other.url))
  host : hostText request = hostText other
  payload : payloadHash request = payloadHash other
  stamp : now.stamp = later.stamp
  token : first.credentials.sessionToken.map Text.trim =
    second.credentials.sessionToken.map Text.trim

theorem map_tokenHeader_eq_iff :
    first.tokenHeader.map shownHeader = second.tokenHeader.map shownHeader ↔
      first.credentials.sessionToken.map Text.trim =
        second.credentials.sessionToken.map Text.trim := by
  unfold tokenHeader
  cases first.credentials.sessionToken with
  | none =>
      cases second.credentials.sessionToken with
      | none => simp only [List.map_nil, Option.map_none]
      | some token => simp only [List.map_nil, List.map_cons, Option.map_none, Option.map_some,
          reduceCtorEq]
  | some token =>
      cases second.credentials.sessionToken with
      | none => simp only [List.map_nil, List.map_cons, Option.map_none, Option.map_some,
          reduceCtorEq]
      | some other => simp only [List.map_nil, List.map_cons, Option.map_some, shownHeader,
          List.cons.injEq, Prod.mk.injEq, true_and, and_true, Option.some.injEq]

/-- A signature binds the request and nothing else. Two requests that are signed, with
    URLs as they are read, have the same canonical text exactly if they agree in all of
    `SignsAlike`. Of their other headers nothing is said, nor of the order of the pairs
    in their queries. -/
theorem canonicalRequest_eq_iff (hrequest : request.url.IsTidy) (hother : other.url.IsTidy)
    (hsigned : first.signAt request now = .ok signed)
    (hsent : second.signAt other later = .ok sent) :
    first.canonicalRequest request now = second.canonicalRequest other later ↔
      SignsAlike first request now second other later := by
  have hlines := isLinewise_of_signAt hrequest hsigned
  have hlines' := isLinewise_of_signAt hother hsent
  rw [canonicalRequest, canonicalRequest, canonicalText_eq_iff hlines hlines',
    canonicalQuery_eq_iff]
  simp only [signedHeaders_eq, List.map_cons, List.cons.injEq, shownHeader, Prod.mk.injEq,
    true_and, hostText, hrequest.trimmed, hother.trimmed, trim_payloadHash, trim_stamp]
  constructor
  · rintro ⟨hmethod, hpath, hquery, ⟨hhost, hpayload, hstamp, htoken⟩, _⟩
    exact ⟨hmethod, hpath, hquery, hhost, hpayload, hstamp, map_tokenHeader_eq_iff.mp htoken⟩
  · rintro ⟨hmethod, hpath, hquery, hhost, hpayload, hstamp, htoken⟩
    exact ⟨hmethod, hpath, hquery, ⟨hhost, hpayload, hstamp, map_tokenHeader_eq_iff.mpr htoken⟩,
      hpayload⟩

end Binding

/-- Two requests to one place: the order of the pairs, the default port, other headers and
    the white space around the token make no difference. -/
theorem canonicalRequest_eq_iff_reordered :
    let credentials : Credentials := ⟨"AKID", "secret", some "token"⟩
    let first : Signer := ⟨credentials, "eu-west-1", "s3"⟩
    let second : Signer := ⟨{ credentials with sessionToken := some " token\t" }, "us-east-1", "s3"⟩
    let now : Instant := ⟨2024, 1, 2, 3, 4, 5⟩
    let url : Url := ⟨"https", some (.name "s3.test"), none, [['b']], some "b&a=1"⟩
    let other : Url := ⟨"https", some (.name "s3.test"), none, [['b']], some "a=1&&b="⟩
    Url.parse "https://s3.test/b?b&a=1" = .ok url ∧
      Url.parse "https://S3.test:443/b?a=1&&b=" = .ok other ∧
      first.canonicalRequest ⟨"GET", url, [], []⟩ now =
        second.canonicalRequest ⟨"GET", other, [("accept", [0x2A])], []⟩ now := by
  intro credentials first second now url other
  have hurl : Url.parse "https://s3.test/b?b&a=1" = .ok url := by decide +kernel
  have hother : Url.parse "https://S3.test:443/b?a=1&&b=" = .ok other := by decide +kernel
  have hfirst : ∃ signed, first.signAt ⟨"GET", url, [], []⟩ now = .ok signed :=
    exists_signAt_iff.mpr ⟨by decide, by decide, by decide, by decide⟩
  have hsecond : ∃ sent, second.signAt ⟨"GET", other, [("accept", [0x2A])], []⟩ now = .ok sent :=
    exists_signAt_iff.mpr ⟨by decide, by decide, by decide, by decide⟩
  rcases hfirst with ⟨signed, hsigned⟩
  rcases hsecond with ⟨sent, hsent⟩
  refine ⟨hurl, hother, ?_⟩
  refine (canonicalRequest_eq_iff (Url.isTidy_of_parse hurl) (Url.isTidy_of_parse hother) hsigned
    hsent).mpr ?_
  exact ⟨rfl, rfl, by decide, rfl, rfl, rfl, by decide +kernel⟩

end Signer

end BatchRun
