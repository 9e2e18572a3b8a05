import BatchRun.Proofs.Http.Canonical
import BatchRun.Proofs.Url.Coded
import Mathlib.Tactic.Tauto

/-!
# Routes of Calls

Which run a call to the control plane is about, as its URL says.

The route of a call has the words of its operation and, between them, the ids of the
application and of the run. The address is the endpoint of the control plane with the
route behind it, segment by segment, and a query if a listing goes on from a token. Ids
and tokens are whatever the service made up, so they are coded. Read again, the path
names the route and the query has the token for its only value. A route tells the
operation by its length and the ids by their places, so no two calls share a URL unless
they are alike in all of these.

Segments of dots have to be left out. They are not coded, and reading the URL drops them.

## Main definitions

* `Url.parameters`: The names and values of a query.
* `Call.route`: The path of a call to the control plane.
* `Call.ids`, `Call.cursor`: What the caller chose of it.

## Theorems

* `Call.ids_eq`: The ids stand at their places in the route.
* `Client.toList_address`: The address of a call.
* `Client.parse_address`: The URL that it stands for.
* `Client.route_of_request`: What the URL of a request says.
-/

namespace BatchRun

/-- The names and the values of a query, as they are read. -/
def Url.parameters (url : Url) : List (Bytes × Bytes) :=
  (Signer.queryPairs (url.query.getD "").toList).map fun (name, value) => (said name, said value)

namespace Call

/-- The words and the ids in the path of a call to the control plane. -/
def route : Call → List String
  | submit request => ["applications", request.applicationId, "jobruns"]
  | attempts handle _ =>
    ["applications", handle.applicationId, "jobruns", handle.runId, "attempts"]
  | cancel handle => ["applications", handle.applicationId, "jobruns", handle.runId]
  | application applicationId => ["applications", applicationId]
  | _ => []

/-- The ids that a call to the control plane is about. -/
def ids : Call → List String
  | submit request => [request.applicationId]
  | attempts handle _ => [handle.applicationId, handle.runId]
  | cancel handle => [handle.applicationId, handle.runId]
  | application applicationId => [applicationId]
  | _ => []

/-- Where a call goes on with the listing of attempts. -/
def cursor : Call → Option String
  | attempts _ token => token
  | _ => none

/-- The query of a call to the control plane. -/
def query (call : Call) : Option (List Char) :=
  call.cursor.map fun token => "nextToken".toList ++ '=' :: Url.component token.toList

variable {call : Call}

/-- The ids stand behind the first and the third word. -/
theorem ids_eq (call : Call) : call.ids = [call.route[1]?, call.route[3]?].filterMap id := by
  cases call <;> rfl

/-- The words that the operations of the control plane are named by. -/
def words : List String := ["applications", "jobruns", "attempts"]

/-- What stands in a route is an id or a word. -/
theorem mem_route {name : String} (h : name ∈ call.route) : name ∈ call.ids ∨ name ∈ words := by
  cases call <;> simp only [route, ids, words, List.mem_cons, List.not_mem_nil, or_false] at h ⊢ <;>
    tauto

/-- A call that is not for the store is one of four. -/
theorem control_cases (h : call.isStoreCall = false) :
    (∃ request, call = submit request) ∨ (∃ handle token, call = attempts handle token) ∨
      (∃ handle, call = cancel handle) ∨ ∃ applicationId, call = application applicationId := by
  cases call with
  | put uri content => exact absurd h Bool.false_ne_true.symm
  | list root token => exact absurd h Bool.false_ne_true.symm
  | get uri => exact absurd h Bool.false_ne_true.symm
  | delete uri => exact absurd h Bool.false_ne_true.symm
  | submit request => exact .inl ⟨request, rfl⟩
  | attempts handle token => exact .inr (.inl ⟨handle, token, rfl⟩)
  | cancel handle => exact .inr (.inr (.inl ⟨handle, rfl⟩))
  | application applicationId => exact .inr (.inr (.inr ⟨applicationId, rfl⟩))

/-- Every route begins with the same word. -/
theorem exists_route (h : call.isStoreCall = false) :
    ∃ rest, call.route = "applications" :: rest := by
  rcases control_cases h with ⟨_, rfl⟩ | ⟨_, _, rfl⟩ | ⟨_, rfl⟩ | ⟨_, rfl⟩
  · exact ⟨_, rfl⟩
  · exact ⟨_, rfl⟩
  · exact ⟨_, rfl⟩
  · exact ⟨_, rfl⟩

/-- Ids that a URL does not drop: any text but one dot or two. -/
def HasPlainIds (call : Call) : Prop := ∀ id ∈ call.ids, id ≠ "." ∧ id ≠ ".."

instance (call : Call) : Decidable call.HasPlainIds := List.decidableBAll _ call.ids

/-- A route has no segment of dots if no id is one. -/
theorem plain_of_mem_route (hids : call.HasPlainIds) {name : String} (h : name ∈ call.route) :
    ¬ (name.toList = ['.'] ∨ name.toList = ['.', '.']) := by
  -- An id is not made of dots by assumption, and no word is.
  have hdots : name ≠ "." ∧ name ≠ ".." := by
    rcases mem_route h with hid | hword
    · exact hids name hid
    · have hall : ∀ word ∈ words, word ≠ "." ∧ word ≠ ".." := by decide
      exact hall name hword
  rintro (hone | htwo)
  · exact hdots.1 (String.toList_inj.mp hone)
  · exact hdots.2 (String.toList_inj.mp htwo)

theorem isQueryChar_of_query {chars : List Char} (h : call.query = some chars) :
    ∀ c ∈ chars, Url.isQueryChar c = true := by
  rcases Option.map_eq_some_iff.mp h with ⟨token, _, rfl⟩
  intro c hc
  rcases List.mem_append.mp hc with hc | hc
  · have hname : ∀ c ∈ "nextToken".toList, Url.isQueryChar c = true := List.all_eq_true.mp rfl
    exact hname c hc
  · rcases List.mem_cons.mp hc with rfl | hc
    · decide
    · rw [Url.isQueryChar, Url.isCodedChar_of_mem_component hc]
      rfl

end Call

/-- Calls that say the same differ neither in their ids nor in their tokens. -/
theorem Call.eq_of_said {call other : Call}
    (hroute : call.route.map Utf8.encode = other.route.map Utf8.encode)
    (hcursor : call.cursor.toList.map (fun token => (Utf8.encode "nextToken", Utf8.encode token)) =
      other.cursor.toList.map fun token => (Utf8.encode "nextToken", Utf8.encode token)) :
    other.route = call.route ∧ other.ids = call.ids ∧ other.cursor = call.cursor := by
  have hencode : ∀ {text last : String}, Utf8.encode text = Utf8.encode last → text = last :=
    fun h => String.toList_inj.mp (Utf8.encodeChars_injective h)
  have hsame : call.route = other.route := (List.map_inj_right fun _ _ => hencode).mp hroute
  have htoken : call.cursor.toList = other.cursor.toList :=
    (List.map_inj_right fun _ _ h => hencode (Prod.mk.inj h).2).mp hcursor
  refine ⟨hsame.symm, ?_, Option.ext fun token => ?_⟩
  · rw [ids_eq, ids_eq, hsame]
  · rw [← Option.mem_def, ← Option.mem_toList, htoken, Option.mem_toList, Option.mem_def]

/-- A query with a token has the token for its only value, and there is none without. -/
theorem Url.parameters_query {url : Url} {call : Call}
    (h : url.query = call.query.map String.ofList) :
    url.parameters = call.cursor.toList.map fun token =>
      (Utf8.encode "nextToken", Utf8.encode token) := by
  rw [Call.query] at h
  cases hcursor : call.cursor with
  | none =>
      rw [hcursor] at h
      rw [parameters, h]
      rfl
  | some token =>
      rw [hcursor] at h
      -- Neither the name nor the coded token has a mark in it that ends a pair.
      have hcoded : '&' ∉ component token.toList := fun hmem =>
        absurd (isCodedChar_of_mem_component hmem) (by decide)
      have hapart : ∀ pair ∈ [("nextToken".toList, component token.toList)],
          '=' ∉ pair.1 ∧ '&' ∉ Signer.pairText pair := by
        intro pair hpair
        rw [List.mem_singleton.mp hpair]
        have hname : '=' ∉ "nextToken".toList ∧ '&' ∉ "nextToken".toList := by decide
        refine ⟨hname.1, fun hmem => ?_⟩
        rcases List.mem_append.mp hmem with hmem | hvalue
        · exact hname.2 hmem
        · rcases List.mem_cons.mp hvalue with hmark | hvalue
          · exact absurd hmark (by decide)
          · exact hcoded hvalue
      have hpairs : Signer.queryPairs ("nextToken".toList ++ '=' :: component token.toList) =
          [("nextToken".toList, component token.toList)] := Signer.queryPairs_joinWith hapart
      rw [parameters, h]
      simp only [Option.map_some, Option.getD_some, String.toList_ofList, hpairs,
        List.map_singleton, said_component, Option.toList_some]
      rfl

namespace Client

variable {client : Client} {call : Call}

/-- The address of a call to the control plane: the endpoint, the route and the query. -/
theorem toList_address (client : Client) (h : call.isStoreCall = false) :
    (client.address call).toList = client.controlPlane.toList ++
      (Url.pathText (call.route.map fun name => Url.component name.toList) ++
        Url.queryBehind call.query) := by
  have hbare : ∀ names, (client.controlPlane ++ components names).toList =
      client.controlPlane.toList ++
        (Url.pathText (names.map fun name => Url.component name.toList) ++
          Url.queryBehind none) := by
    intro names
    rw [String.toList_append, toList_components, Url.queryBehind, List.append_nil]
  rcases Call.control_cases h with ⟨_, rfl⟩ | ⟨handle, token, rfl⟩ | ⟨_, rfl⟩ | ⟨_, rfl⟩
  · exact hbare _
  · -- Only a listing may have a query.
    have hquery : (queryPair "?" "nextToken" token).toList =
        Url.queryBehind (Call.query (.attempts handle token)) := by
      cases token with
      | none => rfl
      | some token =>
          simp only [queryPair, String.toList_append, Percent.component, String.toList_ofList]
          rfl
    rw [address, String.toList_append, hquery, runAddress, hbare, Url.queryBehind,
      List.append_nil, List.append_assoc]
    rfl
  · exact hbare _
  · exact hbare _

/-- The URL of a call to the control plane. Apart from its path and its query it is that
    of the endpoint. -/
theorem parse_address (horigin : Url.IsOrigin client.controlPlane)
    (h : call.isStoreCall = false) (hids : call.HasPlainIds) :
    ∃ endpoint, Url.parse client.controlPlane = .ok endpoint ∧ endpoint.host.isSome ∧
      Url.parse (client.address call) = .ok { endpoint with
        segments := call.route.map fun name => Url.component name.toList
        query := call.query.map String.ofList } := by
  rcases Call.exists_route h with ⟨rest, hroute⟩
  have hmap : call.route.map (fun name => Url.component name.toList) =
      ("applications".toList :: rest.map String.toList).map Url.component := by
    rw [hroute, List.map_cons, List.map_cons, List.map_map]
    rfl
  have hplain : ∀ segment ∈ "applications".toList :: rest.map String.toList,
      ¬ (segment = ['.'] ∨ segment = ['.', '.']) := by
    intro segment hmem
    rw [← List.map_cons (f := String.toList), ← hroute] at hmem
    rcases List.mem_map.mp hmem with ⟨name, hname, rfl⟩
    exact Call.plain_of_mem_route hids hname
  have hwhole := toList_address client h
  rw [hmap] at hwhole ⊢
  exact Url.parse_coded horigin (by decide) hplain (fun _ => Call.isQueryChar_of_query) hwhole

/-- A path of a coded route names the route. -/
theorem names_route {url : Url} (names : List String)
    (h : url.segments = names.map fun name => Url.component name.toList) :
    url.names = names.map Utf8.encode := by
  rw [Url.names, h, List.map_map]
  exact List.map_congr_left fun name _ => Url.said_component name.toList

/-- The request for a call to the control plane is made from its address and signed. -/
theorem request_of_control (client : Client) (now : Instant) (h : call.isStoreCall = false) :
    client.request now call = (HttpRequest.make (method call) (client.address call) (headers call)
      (body call)).bind (client.sign call now) := by
  rcases Call.control_cases h with ⟨_, rfl⟩ | ⟨_, _, rfl⟩ | ⟨_, rfl⟩ | ⟨_, rfl⟩
  · rfl
  · rfl
  · rfl
  · rfl

/-- What the URL of a request to the control plane says. At an endpoint with a scheme and
    a host, a request is built for every call whose ids are not of dots, and sent with the
    same URL once it is signed. Apart from its path and its query this is the URL of the
    endpoint. The path names the words of the operation and the ids, and a token is the
    only value in the query. No other such call has this URL unless its operation, its ids
    and its token are the same. -/
theorem route_of_request (now : Instant) (horigin : Url.IsOrigin client.controlPlane)
    (hcall : call.isStoreCall = false) (hids : call.HasPlainIds) :
    ∃ endpoint request, Url.parse client.controlPlane = .ok endpoint ∧
      client.request now call = client.sign call now request ∧
      (∀ sent, client.sign call now request = .ok sent → sent.url = request.url) ∧
      request.url = { endpoint with
        segments := request.url.segments
        query := request.url.query } ∧
      request.url.names = call.route.map Utf8.encode ∧
      (call.cursor = none → request.url.query = none) ∧
      request.url.parameters = call.cursor.toList.map (fun token =>
        (Utf8.encode "nextToken", Utf8.encode token)) ∧
      ∀ other later sent, other.isStoreCall = false → other.HasPlainIds →
        client.request later other = .ok sent → sent.url = request.url →
        other.route = call.route ∧ other.ids = call.ids ∧ other.cursor = call.cursor := by
  rcases parse_address horigin hcall hids with ⟨endpoint, hparse, hhost, haddress⟩
  refine ⟨endpoint, ⟨method call, { endpoint with
    segments := call.route.map fun name => Url.component name.toList
    query := call.query.map String.ofList }, headers call, body call⟩, hparse, ?_,
    fun sent => url_of_sign, rfl, names_route _ rfl, ?_, Url.parameters_query rfl, ?_⟩
  · rw [request_of_control client now hcall, HttpRequest.make, haddress]
    simp only [hhost, if_true]
    rfl
  · intro hnone
    rw [Call.query, hnone]
    rfl
  · intro other later sent hother hplain hsent hsame
    rcases parse_address horigin hother hplain with ⟨endpoint', _, _, haddress'⟩
    rw [request_of_control client later hother] at hsent
    -- The URL that was sent was read from the other address, so it says both.
    rw [parse_of_make hsent, hsame, Except.ok.injEq] at haddress'
    refine Call.eq_of_said ?_ ?_
    · rw [← names_route other.route (congrArg Url.segments haddress')]
      exact (names_route call.route rfl).symm
    · rw [← Url.parameters_query (congrArg Url.query haddress')]
      exact (Url.parameters_query rfl).symm

/-- The endpoint of the control plane on the same machine. -/
theorem isOrigin_nearby : Url.IsOrigin nearby.controlPlane := by
  refine ⟨"http".toList, "localhost:8080".toList,
    ⟨"http", some (.name "localhost"), some 8080, [[]], none⟩, ?_⟩
  have hscheme : Url.IsScheme "http".toList :=
    ⟨⟨'h', by decide, by decide⟩, List.all_eq_true.mp (by decide)⟩
  exact ⟨by decide, hscheme, by decide, rfl, rfl⟩

/-- Ids with slashes, marks and dots in them, and a token with all that separates the parts
    of a query, are asked for as they are. -/
theorem route_of_request_marks :
    let call : Call := .attempts ⟨"a/../b", "%2e?#é "⟩ (some "x=1&y+z/%26#")
    ∃ request, nearby.request ⟨2024, 1, 2, 3, 4, 5⟩ call = .ok request ∧
      request.url.names =
        ["applications", "a/../b", "jobruns", "%2e?#é ", "attempts"].map Utf8.encode ∧
      request.url.parameters = [(Utf8.encode "nextToken", Utf8.encode "x=1&y+z/%26#")] := by
  intro call
  have hids : call.HasPlainIds := by decide
  rcases route_of_request ⟨2024, 1, 2, 3, 4, 5⟩ isOrigin_nearby rfl hids with
    ⟨_, request, _, hrequest, _, _, hnames, _, hparameters, _⟩
  exact ⟨request, hrequest.trans rfl, hnames, hparameters⟩

end Client

end BatchRun
