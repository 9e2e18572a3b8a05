import BatchRun.Session.Basic

/-!
# A Store in Memory

Objects in memory, listed page by page, with faults to order.

Objects are listed in the order of their keys, or in the opposite one, a page at
a time; the cursor of a page is its last key, so a listing is not disturbed when
objects that were listed are deleted. Every object that is written gets a new tag
from a counter.

A fault strikes calls of one kind whose subject holds a given text. It may let
some of them pass first, strike a number of times only, delay a call, and make it
fail. A call that fails has no effect.

## Main definitions

* `StoredObject`: An object with what a listing says about it.
* `StoreFault`: A fault.
* `MemoryStore`: Objects, faults, and how listings are made.
* `MemoryStore.page`: A page of a listing.
* `MemoryStore.reply`: What the store makes of a call.
-/

namespace BatchRun

/-- An object with what a listing says about it. -/
structure StoredObject where
  bucket : String
  key : String
  content : Bytes
  size : Nat
  etag : Option String
  deriving DecidableEq, Repr

/-- An object to be written. Size and tag may be given. -/
structure Placement where
  bucket : String
  key : String
  content : Bytes
  size : Option Nat
  etag : Option (Option String)
  deriving DecidableEq, Repr

/-- The calls that a store answers. -/
inductive StoreMethod where
  | put
  | list
  | get
  | delete
  deriving DecidableEq, Repr

/-- A fault: which calls it strikes, how many of them it lets pass before, how
    often it strikes, and what it does to a call. -/
structure StoreFault where
  method : StoreMethod
  part : String
  skip : Nat
  times : Option Nat
  delay : Span
  error : Option ServiceError
  deriving DecidableEq, Repr

namespace StoreFault

/-- Whether a fault concerns a call. -/
def concerns (fault : StoreFault) (method : StoreMethod) (subject : String) : Bool :=
  fault.method == method && Text.occursIn fault.part.toList subject.toList &&
    fault.times != some 0

/-- The fault that strikes a call, and the faults afterwards. -/
def strike (method : StoreMethod) (subject : String) :
    List StoreFault → Option StoreFault × List StoreFault
  | [] => (none, [])
  | fault :: rest =>
    if fault.concerns method subject then
      match fault.skip with
      | 0 => (some fault, { fault with times := fault.times.map (· - 1) } :: rest)
      | skip + 1 =>
        let (struck, rest) := strike method subject rest
        (struck, { fault with skip } :: rest)
    else
      let (struck, rest) := strike method subject rest
      (struck, fault :: rest)

end StoreFault

/-- A store in memory. -/
structure MemoryStore where
  pageSize : Nat
  descending : Bool
  objects : List StoredObject
  version : Nat
  faults : List StoreFault
  deriving DecidableEq, Repr

namespace MemoryStore

/-- Whether an object has a given address. -/
def isAt (bucket key : String) (object : StoredObject) : Bool :=
  object.bucket == bucket && object.key == key

/-- A store without an object. -/
def remove (store : MemoryStore) (bucket key : String) : MemoryStore :=
  { store with objects := store.objects.filter (!isAt bucket key ·) }

/-- A store in which an object has been written. -/
def place (store : MemoryStore) (placed : Placement) : MemoryStore :=
  let version := store.version + 1
  let object : StoredObject :=
    { bucket := placed.bucket
      key := placed.key
      content := placed.content
      size := placed.size.getD placed.content.length
      etag := placed.etag.getD (some s!"v{version}") }
  { store with version, objects := (store.remove placed.bucket placed.key).objects ++ [object] }

/-- What a store has at an address. -/
def find? (store : MemoryStore) (uri : ObjectUri) : Option StoredObject :=
  store.objects.find? (isAt uri.bucket uri.key)

/-- Whether a key comes before another in the order of a listing. -/
def isBefore (store : MemoryStore) (a b : String) : Bool :=
  if store.descending then decide (b < a) else decide (a < b)

/-- Whether a listing from a cursor on has an object. -/
def isListed (store : MemoryStore) (root : ObjectUri) (token : Option String)
    (object : StoredObject) : Bool :=
  object.bucket == root.bucket &&
    (Text.afterStart root.listing.toList object.key.toList).isSome &&
    token.all fun token => store.isBefore token object.key

/-- What a listing says about an object. -/
def summary (object : StoredObject) : ObjectSummary :=
  { key := object.key, size := object.size, etag := object.etag }

/-- The objects of a listing from a cursor on, in its order. -/
def listed (store : MemoryStore) (root : ObjectUri) (token : Option String) :
    List ObjectSummary :=
  ((store.objects.filter (store.isListed root token)).map summary).mergeSort
    fun a b => !store.isBefore b.key a.key

/-- A page of a listing. -/
def page (store : MemoryStore) (root : ObjectUri) (token : Option String) : ObjectPage :=
  let found := store.listed root token
  let objects := found.take store.pageSize
  { objects
    nextToken :=
      if store.pageSize < found.length then objects.getLast?.map (·.key) else none }

/-- What a call is about: its kind and its subject. -/
def subject? : Call → Option (StoreMethod × String)
  | .put uri _ => some (.put, uri.key)
  | .list root _ => some (.list, root.listing)
  | .get uri => some (.get, uri.key)
  | .delete uri => some (.delete, uri.key)
  | _ => none

/-- What a call does to a store. -/
def apply (store : MemoryStore) : Call → MemoryStore
  | .put uri content => store.place ⟨uri.bucket, uri.key, content, none, none⟩
  | .delete uri => store.remove uri.bucket uri.key
  | _ => store

/-- What a call without a fault is answered. Only calls for a store have an
    answer. -/
def answer (store : MemoryStore) : (call : Call) → Except ServiceError call.Answer
  | .put _ _ => .ok ()
  | .delete _ => .ok ()
  | .list root token => .ok (store.page root token)
  | .get uri =>
    match store.find? uri with
    | some object => .ok object.content
    | none => .error (.notFound uri.text)
  | .submit _ => .error (.invalidRequest "not a call for a store")
  | .attempts _ _ => .error (.invalidRequest "not a call for a store")
  | .cancel _ => .error (.invalidRequest "not a call for a store")
  | .application _ => .error (.invalidRequest "not a call for a store")

/-- What a store makes of a call. -/
def reply (call : Call) (store : MemoryStore) : Reply MemoryStore call :=
  let (struck, faults) := match subject? call with
    | some (method, subject) => StoreFault.strike method subject store.faults
    | none => (none, store.faults)
  let begun := { store with faults }
  let delay := (struck.map (·.delay)).getD Span.zero
  match struck.bind (·.error) with
  | some error =>
    { delay := some delay, abandoned := begun, settled := begun, answer := .error error
      cancels := false }
  | none =>
    { delay := some delay, abandoned := begun, settled := begun.apply call
      answer := begun.answer call, cancels := false }

end MemoryStore

end BatchRun
