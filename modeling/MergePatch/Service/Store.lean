import MergePatch.Http.Conditions
import MergePatch.Patch.Merge
/-!
# The resource store

The mock service keeps resources by name, each a JSON object with the entity tag and the time
of its last write. Every write stamps a fresh tag, the `n`-th write of the store getting
`mint n`, and takes the store's clock, cut to the whole second, as its time. The service owns two members of every
document: `id` is the collection path and the name, and `name` is the name; a write that sets
them has them put back.

`put` creates or replaces a resource and `patch` applies an RFC 7396 merge patch to an existing
one; both check the request conditions against the current resource first (`admits`), in the
order If-Match, If-None-Match, If-Unmodified-Since, If-Modified-Since. If-Match holds only for
an existing resource whose tag it lists; If-None-Match fails when the resource exists and its tag
is listed; the date conditions only apply to an existing resource.
-/

namespace MergePatch

/-- Why a store operation failed. -/
inductive StoreError where
  /-- No resource has this name. -/
  | notFound (name : String)
  /-- A condition does not hold for the current resource. -/
  | preconditionFailed (reason : String)
  /-- The body is not a JSON object, or not JSON. -/
  | invalidBody (reason : String)
  /-- A conditional header could not be read. -/
  | invalidHeader (reason : String)
deriving DecidableEq, Repr

namespace StoreError

/-- The words of the error. -/
def message : StoreError → String
  | notFound n => "resource not found: " ++ n
  | preconditionFailed r => "precondition failed: " ++ r
  | invalidBody r => "invalid body: " ++ r
  | invalidHeader r => "invalid header: " ++ r

end StoreError

/-- The path under which resources are addressed. -/
def collectionPath : String := "/etag-headers/resources"

/-- A stored document with its version. -/
structure Stored where
  document : Fields
  etag : String
  lastModified : Timestamp
deriving Repr

/-- Whether moment `a` is later than moment `b`. -/
def Timestamp.isAfter (a b : Timestamp) : Bool :=
  b.secs < a.secs || (a.secs == b.secs && b.nanos < a.nanos)

/-- Resources by name, with the source of tags and the clock. -/
structure Store where
  resources : Keyed Stored := []
  issued : Nat := 0
  mint : Nat → String
  clock : Timestamp

namespace Store

/-- The error of a condition that does not hold. -/
def failed (name header : String) : StoreError :=
  .preconditionFailed (header ++ " does not hold for resource '" ++ name ++ "'")

/-- Checks the conditions against the current resource, if any. -/
def admits (name : String) (current : Option Stored) (c : RequestConditions) :
    Except StoreError Unit := do
  if let some expected := c.tags.ifMatch then
    unless current.any (fun s => etagMatches expected s.etag) do throw (failed name ifMatchHeader)
  if let some expected := c.tags.ifNoneMatch then
    if current.any (fun s => etagMatches expected s.etag) then throw (failed name ifNoneMatchHeader)
  if let some since := c.ifUnmodifiedSince then
    if current.any (fun s => s.lastModified.isAfter since) then
      throw (failed name ifUnmodifiedSinceHeader)
  if let some since := c.ifModifiedSince then
    if current.any (fun s => !s.lastModified.isAfter since) then
      throw (failed name ifModifiedSinceHeader)

/-- The document with the members the service owns. -/
def withServerFields (doc : Fields) (name : String) : Fields :=
  Keyed.insert (Keyed.insert doc "id" (.string (collectionPath ++ "/" ++ name))) "name" (.string name)

/-- The number of resources. -/
def size (s : Store) : Nat := s.resources.length

/-- The resource of a name. -/
def get (s : Store) (name : String) : Except StoreError Stored :=
  match Keyed.get? s.resources name with
  | some r => .ok r
  | none => .error (.notFound name)

/-- All resources, in name order. -/
def list (s : Store) : List Stored := s.resources.map (·.2)

/-- Stores a document under a name with a fresh tag. -/
def record (s : Store) (name : String) (doc : Fields) : Stored × Store :=
  let n := s.issued + 1
  let stored : Stored := { document := doc, etag := s.mint n, lastModified := s.clock.truncSecs }
  (stored, { s with resources := Keyed.insert s.resources name stored, issued := n })

/-- Creates or replaces a resource. -/
def put (s : Store) (name : String) (body : Json) (c : RequestConditions) :
    Except StoreError (Stored × Store) :=
  match body with
  | .object doc => do
    admits name (Keyed.get? s.resources name) c
    pure (s.record name (withServerFields doc name))
  | _ => .error (.invalidBody ("resource '" ++ name ++ "' must be a JSON object"))

/-- Applies a merge patch to an existing resource. -/
def patch (s : Store) (name : String) (body : Json) (c : RequestConditions) :
    Except StoreError (Stored × Store) :=
  if !body.isObject then .error (.invalidBody ("patch for '" ++ name ++ "' must be a JSON object"))
  else do
    let current ← s.get name
    admits name (some current) c
    let doc := match Json.mergePatch (.object current.document) body with
      | .object fs => withServerFields fs name
      | _ => current.document
    pure (s.record name doc)

/-- An empty store with a source of tags and a clock. -/
def empty (mint : Nat → String) (clock : Timestamp) : Store := { mint, clock }

/-- Puts each seed document in name order, without conditions. -/
def seeded (s : Store) : List (String × Json) → Except StoreError Store
  | [] => .ok s
  | (name, doc) :: rest => do
    let (_, s) ← s.put name doc {}
    seeded s rest

end Store

end MergePatch
