import BatchRun.Proofs.Logs.Key
import BatchRun.Proofs.Logs.Version
import BatchRun.Proofs.Session.Action
import Mathlib.Logic.Function.Basic

/-!
# Stores with Growing Logs

What a store promises about logs that are written while they are read.

The writers of a run rewrite their objects whenever they like, between two calls
or during one. A store keeps every log growing: each rewrite adds a version whose
content begins with that of the earlier ones. A listing shows some version of an
object, perhaps an old one, and a later get hands out one that is no older than
what the listing before it showed. Calls may fail, and a body may be broken.

A reading of such a store is any sequence of batches, with anything at all in
between. The lines it delivers come from many objects, each of which has its own
share in them.

## Main definitions

* `IsLog`: A key is one of a log of the run.
* `LogStore`: What a store promises.
* `LogStore.ToldApart`, `LogStore.Relisted`: How the versions of an object are
  told apart, all of them or each from the next.
* `Interleaved`: The lines of many objects, each with its share.
* `Reading`: Any sequence of batches from a growing store.
* `LogStore.Complete`: A listing that shows all there will be, of a store whose
  objects can be got and read.

## Theorems

* `Interleaved.append`: More lines of one object.
* `Interleaved.sublist`: Every share is delivered in its order.
* `LogStore.shown_of_listAll`: What a listing in pages shows.
-/

namespace BatchRun

/-- A key is one of a log below a place. -/
def IsLog (root : ObjectUri) (key : String) : Prop :=
  ∃ source, LogSource.ofKey? root.listing key = some source

/-- What a store promises about the logs below a place. -/
structure LogStore {σ : Type} (service : Service σ) (root : ObjectUri) where
  /-- The versions of an object that were written so far, the oldest first. -/
  versions : σ → String → List LogVersion
  /-- The oldest version of an object that a get may still hand out. -/
  served : σ → String → Nat
  /-- No version is taken back. -/
  kept : ∀ call state key,
    versions state key <+: versions (service.reply call state).settled key
  /-- What a log holds only grows. -/
  grown : ∀ state key, IsLog root key → LogVersion.Grow key (versions state key)
  /-- A listing shows versions that are served from then on, or later ones. -/
  listed : ∀ token state page object, (service.reply (.list root token) state).answer = .ok page →
    object ∈ page.objects → IsLog root object.key →
    ∃ i version, i ≤ served (service.reply (.list root token) state).settled object.key ∧
      (versions (service.reply (.list root token) state).settled object.key)[i]? = some version ∧
      version.IsListedAs object
  /-- Only a new listing may show older versions again. -/
  served_le : ∀ call state key, call ≠ .list root none →
    served state key ≤ served (service.reply call state).settled key
  /-- A get hands out a version that is served, or something unreadable. -/
  fetched : ∀ key state body, IsLog root key →
    (service.reply (.get { root with key }) state).answer = .ok body →
    LogCursor.decode? key body = none ∨
    ∃ i version, served state key ≤ i ∧
      (versions (service.reply (.get { root with key }) state).settled key)[i]? = some version ∧
      version.body = body

namespace LogStore

variable {σ : Type} {service : Service σ} {root : ObjectUri}

/-- Versions that are listed alike hold the same. -/
def ToldApart (store : LogStore service root) (state : σ) : Prop :=
  ∀ key, IsLog root key → LogVersion.ToldApart (store.versions state key)

/-- Every rewrite changes the size or the tag with which an object is
    listed. -/
def Relisted (store : LogStore service root) (state : σ) : Prop :=
  ∀ key, IsLog root key → LogVersion.Relisted (store.versions state key)

/-- What the newest readable version of an object holds, as text. -/
def text (store : LogStore service root) (state : σ) (key : String) : List Char :=
  Utf8.lossyChars (LogVersion.newest key (store.versions state key))

/-- What was written in one state is there in another, and nothing older is
    served. -/
def Advances (store : LogStore service root) (state next : σ) : Prop :=
  ∀ key, store.versions state key <+: store.versions next key ∧
    store.served state key ≤ store.served next key

/-- A listed object is a version of a log that is served, or a later one. -/
def Shown (store : LogStore service root) (state : σ) (object : ObjectSummary) : Prop :=
  IsLog root object.key → ∃ i version, i ≤ store.served state object.key ∧
    (store.versions state object.key)[i]? = some version ∧ version.IsListedAs object

theorem advances_of_reply (store : LogStore service root) {call : Call}
    (h : call ≠ .list root none) (state : σ) :
    store.Advances state (service.reply call state).settled :=
  fun key => ⟨store.kept call state key, store.served_le call state key h⟩

theorem shown_mono (store : LogStore service root) {state next : σ}
    (h : store.Advances state next) {object : ObjectSummary} (hshown : store.Shown state object) :
    store.Shown next object := by
  intro hlog
  rcases hshown hlog with ⟨i, version, hi, hversion, hlisted⟩
  exact ⟨i, version, Nat.le_trans hi (h object.key).2,
    LogVersion.getElem?_mono (h object.key).1 hversion, hlisted⟩

end LogStore

/-- The lines of many objects, one after the other in any order, of which each
    object has its share. -/
inductive Interleaved (root : ObjectUri) : (String → List String) → List LogLine → Prop
  | nil : Interleaved root (fun _ => []) []
  | snoc {share : String → List String} {lines : List LogLine} {key : String}
      {source : LogSource} (h : Interleaved root share lines)
      (hkey : LogSource.ofKey? root.listing key = some source) (message : String) :
      Interleaved root (Function.update share key (share key ++ [message]))
        (lines ++ [⟨source, message⟩])

/-- More lines of one object go to its share. -/
theorem Interleaved.append {root : ObjectUri} {share : String → List String}
    {lines : List LogLine} (h : Interleaved root share lines) {key : String} {source : LogSource}
    (hkey : LogSource.ofKey? root.listing key = some source) (messages : List String) :
    Interleaved root (Function.update share key (share key ++ messages))
      (lines ++ LogReader.linesOf source messages) := by
  induction messages generalizing share lines with
  | nil =>
      rw [List.append_nil, Function.update_eq_self, LogReader.linesOf, List.map_nil,
        List.append_nil]
      exact h
  | cons message rest ih =>
      have hrest := ih (h.snoc hkey message)
      rw [Function.update_self, Function.update_idem, List.append_assoc, List.singleton_append,
        List.append_assoc, List.singleton_append] at hrest
      exact hrest

/-- Every share is delivered in its order. -/
theorem Interleaved.sublist {root : ObjectUri} {share : String → List String}
    {lines : List LogLine} (h : Interleaved root share lines) (key : String) :
    (share key).Sublist (lines.map (·.message)) := by
  induction h with
  | nil => exact List.Sublist.refl _
  | @snoc share lines other source _ _ message ih =>
      rw [List.map_append, List.map_cons, List.map_nil]
      by_cases ho : key = other
      · rw [ho] at ih ⊢
        rw [Function.update_self]
        exact ih.append (List.Sublist.refl _)
      · rw [Function.update_of_ne ho]
        exact ih.trans (List.sublist_append_left _ _)

variable {σ : Type} {service : Service σ} {root : ObjectUri}

/-- Any sequence of batches that a reader takes from a store, with the lines that
    were delivered. Between two batches anything may happen, as long as what was
    written stays written. -/
inductive Reading (store : LogStore service root) (tree : FileTree) (rounds : Nat)
    (first : LogReader) : LogReader → Session σ → List LogLine → Prop
  | start (session : Session σ) : Reading store tree rounds first first session []
  | meanwhile {reader : LogReader} {session : Session σ} {lines : List LogLine}
      (h : Reading store tree rounds first reader session lines) (next : Session σ)
      (hkept : ∀ key, store.versions session.state key <+: store.versions next.state key) :
      Reading store tree rounds first reader next lines
  | batch {reader after : LogReader} {session next : Session σ} {lines more : List LogLine}
      (h : Reading store tree rounds first reader session lines)
      (hread : LogReader.read (Session.host service tree rounds) false reader session =
        (some (more, after), next)) :
      Reading store tree rounds first after next (lines ++ more)

/-- The states to which asking for objects leads. -/
inductive Fetching (service : Service σ) (state : σ) : σ → Prop
  | refl : Fetching service state state
  | step {next : σ} (h : Fetching service state next) (uri : ObjectUri) :
      Fetching service state (service.reply (.get uri) next).settled

/-- A listing has shown all logs as they will be for good, and each of them can
    be got and read from then on. -/
structure LogStore.Complete (store : LogStore service root) (state : σ)
    (objects : List ObjectSummary) : Prop where
  /-- Every log was listed. -/
  all : ∀ key, IsLog root key → store.versions state key ≠ [] → ∃ object ∈ objects, object.key = key
  /-- What was listed is the last version, which can be read. -/
  current : ∀ object ∈ objects, IsLog root object.key → ∃ last content,
    (store.versions state object.key).getLast? = some last ∧ last.IsListedAs object ∧
      last.content? object.key = some content
  /-- Nothing more is written. -/
  still : ∀ next, Fetching service state next →
    ∀ key, store.versions next key = store.versions state key
  /-- Every get is answered with something readable. -/
  answered : ∀ next, Fetching service state next → ∀ object ∈ objects, IsLog root object.key →
    (service.reply (.get { root with key := object.key }) next).delay ≠ none ∧
    ∃ body, (service.reply (.get { root with key := object.key }) next).answer = .ok body ∧
      LogCursor.decode? object.key body ≠ none

namespace LogStore

/-- What a listing in pages shows is served from then on, and nothing that was
    written gets lost on the way. -/
theorem shown_of_listAll (store : LogStore service root) (tree : FileTree) (limit rounds : Nat)
    (token : Option String) (found : List ObjectSummary) (session listed : Session σ)
    (answer : Except ServiceError (List ObjectSummary)) (hfirst : token = none → found = [])
    (hfound : ∀ object ∈ found, store.Shown session.state object)
    (h : LogReader.listAll (Session.host service tree limit) root rounds token found session =
      (some answer, listed)) :
    (∀ key, store.versions session.state key <+: store.versions listed.state key) ∧
      ∀ objects, answer = .ok objects → ∀ object ∈ objects, store.Shown listed.state object := by
  induction rounds generalizing token found session with
  | zero =>
      rcases Action.eq_of_bind h with ⟨_, middle, _, hnone⟩
      exact absurd hnone (by simp only [Prod.mk.injEq, reduceCtorEq, false_and, not_false_eq_true])
  | succ rounds ih =>
      rcases Action.eq_of_bind h with ⟨reply, middle, hcall, hrest⟩
      rcases Session.eq_of_ask hcall with ⟨hanswer, hsettled⟩
      have hkept : ∀ key, store.versions session.state key <+: store.versions middle.state key := by
        intro key
        rw [← hsettled]
        exact store.kept _ _ key
      cases reply with
      | error fault =>
          rcases Action.eq_of_pure hrest with ⟨rfl, rfl⟩
          exact ⟨hkept, fun objects hno => absurd hno (by simp only [reduceCtorEq,
            not_false_eq_true])⟩
      | ok page =>
          -- What earlier pages showed is still served, since only a new listing starts over.
          have hshown : ∀ object ∈ found ++ page.objects, store.Shown middle.state object := by
            intro object hmem
            rcases List.mem_append.mp hmem with hold | hnew
            · have htoken : Call.list root token ≠ .list root none := by
                intro heq
                rw [Call.list.injEq] at heq
                rw [hfirst heq.2] at hold
                exact List.not_mem_nil hold
              rw [← hsettled]
              exact store.shown_mono (store.advances_of_reply htoken _) (hfound object hold)
            · intro hlog
              rw [← hsettled]
              exact store.listed token session.state page object hanswer hnew hlog
          cases hnext : page.nextToken with
          | none =>
              simp only [hnext] at hrest
              rcases Action.eq_of_pure hrest with ⟨rfl, rfl⟩
              refine ⟨hkept, fun objects hobjects => ?_⟩
              rw [Except.ok.injEq] at hobjects
              rw [← hobjects]
              exact hshown
          | some next =>
              simp only [hnext] at hrest
              rcases ih (some next) _ middle (fun hno => absurd hno (by simp only [reduceCtorEq,
                not_false_eq_true])) hshown hrest with ⟨hkept', hall⟩
              exact ⟨fun key => (hkept key).trans (hkept' key), hall⟩

end LogStore

end BatchRun
