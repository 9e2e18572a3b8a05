import BatchRun.Proofs.Http.Sending
import BatchRun.Proofs.ObjectUri
import BatchRun.Proofs.Text.Utf8
import BatchRun.Proofs.Url.Parse
import BatchRun.Proofs.Url.Path
import BatchRun.Service.Rest

/-!
# Addresses of Objects

Which object a request is about, as its URL says.

The address of an object is the endpoint of the store with the bucket and the
segments of the key behind it, each coded so that none of its characters has a
meaning in a URL. A URL is read from this text before the request is sent. Reading
it gives the segments back as they were coded, since every coded character stays as
it is, and each is read as the segment that was coded.

A dot is not coded, because it has no meaning by itself. Alone in a segment it has
one: such a segment is dropped, and two dots take the one before along. So a key
with a segment of dots is addressed under another key, or in another bucket.

## Main definitions

* `Url.names`: What the path of a URL names.
* `ObjectUri.names`: What names an object.
* `ObjectUri.HasPlainBucket`: A bucket by the rules for their names.
* `Url.IsEndpoint`: A scheme and a host, maybe with a port.
* `Call.object?`: The object that a call is about.

## Theorems

* `said_component`, `isDots_component`: What a coded segment says.
* `resolvePath_components`: The segments of an address.
* `ObjectUri.eq_of_names`: Different objects have different names.
* `Client.names_of_request`: What the URL of a request names.
-/

namespace BatchRun

namespace Url

/-- What the path of a URL names, segment by segment. -/
def names (url : Url) : List Bytes := url.segments.map said

/-- A segment as it is coded in an address. -/
def component (segment : List Char) : List Char :=
  Percent.encodeWhere (fun b => !Percent.isUnreserved b) (Utf8.encodeChars segment)

/-- A character that has no meaning in a URL, or the percent sign. -/
def isSafe (c : Char) : Bool :=
  decide (0x20 < c.toNat ∧ c.toNat < 0x80) && c != '/' && c != '\\' && c != '?' && c != '#' &&
    !isCodedInPath (UInt8.ofNat c.toNat)

/-- Every character of a coded segment is safe. -/
theorem isSafe_of_mem_component {segment : List Char} {c : Char} (h : c ∈ component segment) :
    isSafe c = true := by
  have hall : ∀ b : UInt8, (if !Percent.isUnreserved b then Percent.triplet b
      else [Char.ofNat b.toNat]).all isSafe = true := forall_byte (by decide +kernel)
  rw [component, Percent.encodeWhere, List.mem_flatMap] at h
  rcases h with ⟨b, _, hc⟩
  exact List.all_eq_true.mp (hall b) c hc

theorem codesBeyond_reserved : Percent.CodesBeyond fun b => !Percent.isUnreserved b :=
  forall_byte (by decide +kernel)

/-- A coded segment says what was coded. -/
theorem said_component (segment : List Char) :
    said (component segment) = Utf8.encodeChars segment :=
  Percent.decode_encodeWhere_sign codesBeyond_reserved (by decide) _

/-- A coded segment is of dots exactly if it was before. -/
theorem isDots_component {segment : List Char} :
    isDots (component segment) = true ↔ segment = ['.'] ∨ segment = ['.', '.'] := by
  constructor
  · intro h
    rcases said_of_isDots h with hone | htwo
    · rw [said_component] at hone
      exact .inl (Utf8.encodeChars_injective hone)
    · rw [said_component] at htwo
      exact .inr (Utf8.encodeChars_injective htwo)
  · rintro (rfl | rfl)
    · decide
    · decide

theorem encodeSegment_component (segment : List Char) :
    encodeSegment (component segment) = component segment := by
  refine Percent.encodeWhere_of_plain fun c hc => ?_
  have hsafe := isSafe_of_mem_component hc
  simp only [isSafe, Bool.and_eq_true, decide_eq_true_eq, Bool.not_eq_true'] at hsafe
  exact ⟨hsafe.1.1.1.1.1.2, hsafe.2⟩

/-- Coded segments with slashes between them are visible, and no query and no fragment
    begins in them. -/
theorem visible_of_mem_components {segments : List (List Char)} {c : Char}
    (h : c ∈ Text.joinWith ['/'] (segments.map component)) :
    0x20 < c.toNat ∧ c ≠ '?' ∧ c ≠ '#' := by
  rcases Text.mem_of_mem_joinWith h with rfl | ⟨piece, hpiece, hmem⟩
  · decide
  · rcases List.mem_map.mp hpiece with ⟨segment, _, rfl⟩
    have hsafe := isSafe_of_mem_component hmem
    simp only [isSafe, Bool.and_eq_true, decide_eq_true_eq, bne_iff_ne, ne_eq] at hsafe
    exact ⟨hsafe.1.1.1.1.1.1, hsafe.1.1.2, hsafe.1.2⟩

/-- The segments of a path of coded segments are resolved as they are. -/
theorem resolvePath_components (rules : PathRules) {segments : List (List Char)}
    (hne : segments ≠ []) :
    resolvePath rules (Text.joinWith ['/'] (segments.map component)) =
      addSegments rules [] (segments.map component) := by
  rw [resolvePath, Text.splitWhere_joinWith]
  · rfl
  · simpa only [ne_eq, List.map_eq_nil_iff] using hne
  · intro piece hpiece c hc
    rcases List.mem_map.mp hpiece with ⟨segment, _, rfl⟩
    have hsafe := isSafe_of_mem_component hc
    simp only [isSafe, Bool.and_eq_true, bne_iff_ne, ne_eq] at hsafe
    rw [beq_eq_false_iff_ne.mpr hsafe.1.1.1.1.2, beq_eq_false_iff_ne.mpr hsafe.1.1.1.2,
      Bool.and_false, Bool.or_self]

/-- A path of coded segments names what was coded, unless one of the segments is
    of dots. -/
theorem said_resolvePath_components (rules : PathRules) {segments : List (List Char)}
    (hne : segments ≠ []) :
    (resolvePath rules (Text.joinWith ['/'] (segments.map component))).map said =
        segments.map Utf8.encodeChars ↔
      ∀ segment ∈ segments, ¬ (segment = ['.'] ∨ segment = ['.', '.']) := by
  rw [resolvePath_components rules hne]
  constructor
  · intro h segment hmem hdots
    -- What is named would be too long: resolving a segment of dots has made it shorter.
    have hany : (segments.map component).any isDots = true :=
      List.any_eq_true.mpr ⟨_, List.mem_map_of_mem hmem, isDots_component.mpr hdots⟩
    have hle := saidLength_addSegments_le rules [] (segments.map component)
    rw [if_pos hany] at hle
    have hsame : saidLength (addSegments rules [] (segments.map component)) =
        saidLength (segments.map component) := by
      have hlength := congrArg (fun names : List Bytes => (names.flatMap (0x2F :: ·)).length) h
      simp only [List.flatMap_map, ← said_component] at hlength
      rw [saidLength, saidLength, List.flatMap_map]
      exact hlength
    rw [hsame] at hle
    have hnil : saidLength [] = 0 := rfl
    omega
  · intro h
    rw [addSegments_of_plain rules [], List.nil_append, List.map_map, List.map_map]
    · refine List.map_congr_left fun segment _ => ?_
      rw [Function.comp_apply, Function.comp_apply, encodeSegment_component, said_component]
    · intro piece hpiece
      rcases List.mem_map.mp hpiece with ⟨segment, hmem, rfl⟩
      exact Bool.eq_false_iff.mpr fun hdots => h segment hmem (isDots_component.mp hdots)

/-- An endpoint that requests can be sent to: a scheme, but not that of files, and
    a host that can be read, maybe with a user and a port. -/
def IsEndpoint (text : String) : Prop :=
  ∃ scheme authority url, text.toList = bareText scheme authority ∧ IsScheme scheme ∧
    IsAuthority authority ∧ parse text = .ok url ∧ url.host.isSome ∧
    SchemeKind.ofText url.scheme ≠ .file

end Url

namespace ObjectUri

/-- The bucket of an object and the segments of its key. -/
def segments (uri : ObjectUri) : List (List Char) :=
  uri.bucket.toList :: Text.splitOn '/' uri.key.toList

/-- What names an object, in bytes. -/
def names (uri : ObjectUri) : List Bytes := uri.segments.map Utf8.encodeChars

/-- A bucket by the rules for their names: small letters, digits and hyphens. -/
def HasPlainBucket (uri : ObjectUri) : Prop :=
  ∀ c ∈ uri.bucket.toList, (c.isLower || c.isDigit || c == '-') = true

instance (uri : ObjectUri) : Decidable uri.HasPlainBucket :=
  List.decidableBAll _ uri.bucket.toList

/-- Objects with the same names are the same, but for their schemes. -/
theorem eq_of_names {uri other : ObjectUri} (h : uri.names = other.names) :
    uri.bucket = other.bucket ∧ uri.key = other.key := by
  have hsegments := (List.map_inj_right fun _ _ => Utf8.encodeChars_injective).mp h
  rw [segments, segments, List.cons.injEq] at hsegments
  refine ⟨String.toList_inj.mp hsegments.1, String.toList_inj.mp ?_⟩
  rw [← Text.joinWith_splitOn '/' uri.key.toList, hsegments.2, Text.joinWith_splitOn]

end ObjectUri

/-- The object that a call is about, if it is about one. -/
def Call.object? : Call → Option ObjectUri
  | put uri _ => some uri
  | get uri => some uri
  | delete uri => some uri
  | _ => none

namespace Client

variable {client : Client} {uri : ObjectUri}

theorem toList_components (names : List String) :
    (components names).toList = Url.pathText (names.map fun name => Url.component name.toList) := by
  induction names with
  | nil => rfl
  | cons name rest ih =>
      have hone : ("/" ++ Percent.component name).toList = '/' :: Url.component name.toList := by
        rw [String.toList_append, Percent.component, String.toList_ofList, String.toList_ofList]
        rfl
      have hrest : (components (name :: rest)).toList =
          ("/" ++ Percent.component name).toList ++ (components rest).toList := by
        cases rest with
        | nil => rw [components, components, List.map_nil, List.map_singleton,
            String.intercalate_singleton, String.intercalate_nil, String.toList_empty,
            List.append_nil]
        | cons next rest => rw [components, components, List.map_cons, List.map_cons,
            String.intercalate_cons_cons, String.append_empty, String.toList_append]
      rw [hrest, hone, ih]
      rfl

theorem toList_objectAddress (client : Client) (uri : ObjectUri) :
    (client.objectAddress uri).toList = client.objectStore.toList ++
      '/' :: Text.joinWith ['/'] (uri.segments.map Url.component) := by
  have hmap : (uri.bucket :: (Text.splitOn '/' uri.key.toList).map String.ofList).map
      (fun name => Url.component name.toList) = uri.segments.map Url.component := by
    simp only [ObjectUri.segments, List.map_cons, List.map_map, Function.comp_def,
      String.toList_ofList]
  rw [objectAddress, String.toList_append, toList_components, hmap, Url.pathText_eq_joinWith]
  exact List.cons_ne_nil _ _

/-- A bucket by the rules is no segment of dots, so only the key can have one. -/
theorem forall_segments_iff (hbucket : uri.HasPlainBucket) :
    (∀ segment ∈ uri.segments, ¬ (segment = ['.'] ∨ segment = ['.', '.'])) ↔ ¬ uri.IsDotted := by
  have hdot : ∀ rest, uri.bucket.toList ≠ '.' :: rest := by
    intro rest h
    have hchar := hbucket '.' (h ▸ List.mem_cons_self)
    exact absurd hchar (by decide)
  rw [ObjectUri.segments, List.forall_mem_cons]
  constructor
  · rintro ⟨_, hkey⟩ (hone | htwo)
    · exact hkey _ hone (.inl rfl)
    · exact hkey _ htwo (.inr rfl)
  · intro hplain
    refine ⟨fun h => ?_, fun segment hmem h => ?_⟩
    · rcases h with hone | htwo
      · exact hdot _ hone
      · exact hdot _ htwo
    · rcases h with rfl | rfl
      · exact hplain (.inl hmem)
      · exact hplain (.inr hmem)

/-- The URL of an object. Apart from its path it is that of the endpoint, and what
    its path names is the object exactly if no segment of the key is of dots. -/
theorem parse_objectAddress (hendpoint : Url.IsEndpoint client.objectStore)
    (hbucket : uri.HasPlainBucket) :
    ∃ endpoint segments, Url.parse client.objectStore = .ok endpoint ∧ endpoint.host.isSome ∧
      Url.parse (client.objectAddress uri) = .ok { endpoint with segments, query := none } ∧
      (segments.map Url.said = uri.names ↔ ¬ uri.IsDotted) := by
  rcases hendpoint with ⟨scheme, authority, url, htext, hscheme, hauthority, hparse, hhost, hfile⟩
  have hpath : ∀ c ∈ Text.joinWith ['/'] (uri.segments.map Url.component),
      0x20 < c.toNat ∧ c ≠ '?' ∧ c ≠ '#' := fun c hc => Url.visible_of_mem_components hc
  have hwhole : (client.objectAddress uri).toList = Url.bareText scheme (authority ++
      '/' :: Text.joinWith ['/'] (uri.segments.map Url.component)) := by
    rw [toList_objectAddress, htext, Url.bareText, Url.bareText, List.append_assoc]
    rfl
  have hbare := Url.significant_of_bareText htext hscheme fun c hc => (hauthority c hc).1
  have hbehind := Url.significant_of_bareText hwhole hscheme fun c hc => by
    rcases List.mem_append.mp hc with hc | hc
    · exact (hauthority c hc).1
    · rcases List.mem_cons.mp hc with rfl | hc
      · decide
      · exact (hpath c hc).1
  have hurl := Url.parse_append hscheme hauthority (Url.opensPath_slash _) hbare hbehind hparse
    hhost hfile
  rw [Url.cutPath_slash _ fun c hc => (hpath c hc).2] at hurl
  refine ⟨url, _, hparse, hhost, hurl, ?_⟩
  rw [← forall_segments_iff hbucket]
  exact Url.said_resolvePath_components _ (List.cons_ne_nil _ _)

/-- Signing a request does not change its URL. -/
theorem url_of_sign {call : Call} {now : Instant} {request signed : HttpRequest}
    (h : client.sign call now request = .ok signed) : signed.url = request.url := by
  rw [sign] at h
  split at h
  · rw [(Signer.signAt_eq_ok_iff.mp h).2]
    rfl
  · rw [← Except.ok.inj h]

/-- The request for a call about an object is made from its address and signed,
    unless the object is put and has no key. -/
theorem request_of_object (client : Client) {call : Call} (now : Instant)
    (hobject : call.object? = some uri) :
    client.request now call = (HttpRequest.make (method call) (client.objectAddress uri)
        (headers call) (body call)).bind (client.sign call now) ∨
      uri.key = "" ∧ ∃ fault, client.request now call = .error fault := by
  cases call with
  | put other content =>
      rw [Call.object?, Option.some.injEq] at hobject
      simp only [request, address, hobject]
      split
      · next hempty => exact .inr ⟨String.isEmpty_iff.mp hempty, _, rfl⟩
      · exact .inl rfl
  | get other =>
      rw [Call.object?, Option.some.injEq] at hobject
      rw [← hobject]
      exact .inl rfl
  | delete other =>
      rw [Call.object?, Option.some.injEq] at hobject
      rw [← hobject]
      exact .inl rfl
  | list root token =>
      exact absurd hobject (by simp only [Call.object?, reduceCtorEq, not_false_eq_true])
  | submit submission =>
      exact absurd hobject (by simp only [Call.object?, reduceCtorEq, not_false_eq_true])
  | attempts handle token =>
      exact absurd hobject (by simp only [Call.object?, reduceCtorEq, not_false_eq_true])
  | cancel handle =>
      exact absurd hobject (by simp only [Call.object?, reduceCtorEq, not_false_eq_true])
  | application applicationId =>
      exact absurd hobject (by simp only [Call.object?, reduceCtorEq, not_false_eq_true])

/-- A request that was made from an address and signed has the URL that the address
    stands for. -/
theorem parse_of_make {call : Call} {now : Instant} {method address : String}
    {headers : Table String Bytes} {body : Bytes} {sent : HttpRequest}
    (h : (HttpRequest.make method address headers body).bind (client.sign call now) = .ok sent) :
    Url.parse address = .ok sent.url := by
  rcases Url.eq_ok_of_bind h with ⟨request, hmake, hsign⟩
  rw [url_of_sign hsign]
  rw [HttpRequest.make] at hmake
  split at hmake
  · next url hparse =>
    split at hmake
    · rw [hparse, ← Except.ok.inj hmake]
    · exact absurd hmake (by simp only [reduceCtorEq, not_false_eq_true])
  · exact absurd hmake (by simp only [reduceCtorEq, not_false_eq_true])

/-- Any request for a call about an object has the URL that the address of the
    object stands for. -/
theorem parse_of_request {call : Call} {now : Instant} {sent : HttpRequest}
    (hobject : call.object? = some uri) (h : client.request now call = .ok sent) :
    Url.parse (client.objectAddress uri) = .ok sent.url := by
  rcases request_of_object client now hobject with hbuilt | ⟨_, fault, hfault⟩
  · rw [hbuilt] at h
    exact parse_of_make h
  · rw [hfault] at h
    exact absurd h (by simp only [reduceCtorEq, not_false_eq_true])

/-- What the URL of a request names. At an endpoint that can be read, a request is
    built for every object with a bucket by the rules, and sent with the same URL
    once it is signed. Apart from its path this is the URL of the endpoint. The
    segments of the path name the bucket and the segments of the key exactly if
    none of these is of dots, and then no other such object has this URL. -/
theorem names_of_request {call : Call} (now : Instant)
    (hendpoint : Url.IsEndpoint client.objectStore) (hobject : call.object? = some uri)
    (hbucket : uri.HasPlainBucket) (hkey : uri.key ≠ "") :
    ∃ endpoint request, Url.parse client.objectStore = .ok endpoint ∧
      client.request now call = client.sign call now request ∧
      (∀ sent, client.sign call now request = .ok sent → sent.url = request.url) ∧
      request.url = { endpoint with segments := request.url.segments, query := none } ∧
      (request.url.names = uri.names ↔ ¬ uri.IsDotted) ∧
      ∀ other otherCall later sent, otherCall.object? = some other → other.HasPlainBucket →
        client.request later otherCall = .ok sent → sent.url = request.url →
        ¬ uri.IsDotted → ¬ other.IsDotted → other.bucket = uri.bucket ∧ other.key = uri.key := by
  rcases parse_objectAddress hendpoint hbucket with
    ⟨endpoint, segments, hparse, hhost, haddress, hnames⟩
  refine ⟨endpoint, ⟨method call, { endpoint with segments, query := none }, headers call,
    body call⟩, hparse, ?_, fun sent => url_of_sign, rfl, hnames, ?_⟩
  · rcases request_of_object client now hobject with hbuilt | ⟨hempty, _⟩
    · rw [hbuilt, HttpRequest.make, haddress]
      simp only [hhost, if_true]
      rfl
    · exact absurd hempty hkey
  · intro other otherCall later sent hother hplain hsent hsame huri hclear
    rcases parse_objectAddress hendpoint hplain with ⟨_, _, hparse', _, hother', hnames'⟩
    -- Both URLs are read from an address, and each names its own object.
    rw [parse_of_request hother hsent, hsame, Except.ok.injEq, Url.mk.injEq] at hother'
    rw [hother'.2.2.2.1] at hnames
    exact ObjectUri.eq_of_names ((hnames'.mpr hclear).symm.trans (hnames.mpr huri))

/-- Where a store might be on the same machine. -/
def nearby : Client := ⟨"us-east-1", "http://localhost:8080", "http://localhost:9000", none⟩

theorem isEndpoint_nearby : Url.IsEndpoint nearby.objectStore := by
  refine ⟨"http".toList, "localhost:9000".toList,
    ⟨"http", some (.name "localhost"), some 9000, [[]], none⟩, ?_⟩
  have hscheme : Url.IsScheme "http".toList :=
    ⟨⟨'h', by decide, by decide⟩, List.all_eq_true.mp (by decide)⟩
  exact ⟨by decide, hscheme, by decide, rfl, rfl, by decide⟩

/-- A key with a space is asked for under its own name. -/
theorem names_of_request_space :
    ∃ request, nearby.request ⟨2024, 1, 2, 3, 4, 5⟩ (.get ⟨"s3", "bucket", "my logs/run.txt"⟩) =
      .ok request ∧ request.url.names = ["bucket", "my logs", "run.txt"].map Utf8.encode := by
  have hobject : Call.object? (.get ⟨"s3", "bucket", "my logs/run.txt"⟩) =
      some ⟨"s3", "bucket", "my logs/run.txt"⟩ := rfl
  rcases names_of_request ⟨2024, 1, 2, 3, 4, 5⟩ isEndpoint_nearby hobject (by decide)
    (by decide) with ⟨_, request, _, hrequest, _, _, hnames, _⟩
  exact ⟨request, hrequest.trans rfl, (hnames.mpr (by decide)).trans (by decide +kernel)⟩

/-- A key that begins with two dots is written to another bucket, to the object that
    has the rest for its key. -/
theorem names_of_request_above :
    let now : Instant := ⟨2024, 1, 2, 3, 4, 5⟩
    let uri : ObjectUri := ⟨"s3", "bucket", "../other/main.py"⟩
    let url (uri : ObjectUri) := (nearby.request now (.put uri [1])).toOption.map (·.url)
    Url.IsEndpoint nearby.objectStore ∧ uri.HasPlainBucket ∧ uri.Normal ∧
      (url uri).map Url.names = some (["other", "main.py"].map Utf8.encode) ∧
      uri.names = ["bucket", "..", "other", "main.py"].map Utf8.encode ∧
      url uri = url ⟨"s3", "other", "main.py"⟩ := by
  dsimp only
  exact ⟨isEndpoint_nearby, by decide, by decide, by decide +kernel, by decide +kernel,
    by decide +kernel⟩

end Client

end BatchRun
