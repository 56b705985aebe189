import MergePatch.Service.Store
import MergePatch.Http.Message
import MergePatch.Json.Write
import MergePatch.Text.Percent
import MergePatch.Text.Utf8
/-!
# The mock service

`Service.handle` answers one HTTP request against a store. The routes are `/health`, the
collection path (listing) and the collection path followed by one non-empty segment, the name of
a resource, percent-decoded; an absolute URI is routed by its path. A path outside them is
answered 404; a method a route does not serve is answered 405 with the methods it does serve in
`allow`. `GET` routes also serve `HEAD`, which answers as `GET` would but without the body.

Writes read the conditional headers first; an If-Unmodified-Since or If-Modified-Since that is not
an HTTP date is refused. A `PATCH` must come as `application/merge-patch+json`. Bodies must be JSON.
A store error is answered with its status and `{"error": message}`; a stored resource with its
document, tag and last write time. Every answer of a route names its content length.
-/

namespace MergePatch

/-- A request as the service sees it: header values are the text as sent. -/
structure Incoming where
  method : String
  uri : String
  headers : List (String × String) := []
  body : ByteArray := ByteArray.empty

/-- An answer: status, headers with lower-case names, body. -/
structure Reply where
  status : Nat
  headers : List (String × String) := []
  body : ByteArray := ByteArray.empty

namespace Service

/-- The content type of merge-patch bodies. -/
def mergePatchType : String := "application/merge-patch+json"

/-- The version the health check reports. -/
def version : String := "0.1.0"

/-- Whether a header value is visible ASCII or tab, so that it reads as text. -/
def isVisibleText (v : String) : Bool :=
  v.toUTF8.data.all fun b => (32 ≤ b.toNat && b.toNat < 127) || b.toNat == 9

/-- The first value of a header that reads as text. -/
def header? (req : Incoming) (name : String) : Option String :=
  match req.headers.find? (fun (n, _) => sameHeaderName n name) with
  | some (_, v) => if isVisibleText v then some v else none
  | none => none

/-- A JSON answer. -/
def jsonReply (status : Nat) (j : Json) (extra : List (String × String) := []) : Reply :=
  { status, body := j.compact.toUTF8, headers := extra ++ [("content-type", "application/json")] }

/-- The answer to a store error. -/
def storeErrorReply (e : StoreError) : Reply :=
  let status := match e with
    | .notFound _ => 404
    | .preconditionFailed _ => 412
    | .invalidBody _ | .invalidHeader _ => 400
  jsonReply status (Json.obj [("error", .string e.message)])

/-- The answer of a stored resource. -/
def storedReply (s : Stored) : Reply :=
  jsonReply 200 (.object s.document) [("etag", s.etag), ("last-modified", s.lastModified.httpDate)]

/-- A date header of the request, if present. -/
def dateHeader (req : Incoming) (name : String) : Except StoreError (Option Timestamp) :=
  match header? req name with
  | none => .ok none
  | some v => match Timestamp.ofHttpDate? v with
    | some t => .ok (some t)
    | none => .error (.invalidHeader (name ++ ": '" ++ v ++ "' is not an HTTP date"))

/-- The conditions of the request's headers. -/
def conditions (req : Incoming) : Except StoreError RequestConditions := do
  let unmodified ← dateHeader req ifUnmodifiedSinceHeader
  let modified ← dateHeader req ifModifiedSinceHeader
  pure { tags := ⟨header? req ifMatchHeader, header? req ifNoneMatchHeader⟩,
         ifModifiedSince := modified, ifUnmodifiedSince := unmodified }

/-- The request's body as JSON. -/
def bodyJson (req : Incoming) : Except StoreError Json :=
  match Json.parse req.body with
  | .ok j => .ok j
  | .error e => .error (.invalidBody e.message)

/-- The answer of a store step, and the store after it. -/
def answer (s : Store) (r : Except StoreError (Stored × Store)) : Reply × Store :=
  match r with
  | .ok (stored, s) => (storedReply stored, s)
  | .error e => (storeErrorReply e, s)

/-- `GET` of one resource. -/
def getOne (s : Store) (name : String) : Reply :=
  match s.get name with
  | .ok stored => storedReply stored
  | .error e => storeErrorReply e

/-- `PUT` of one resource. -/
def putOne (s : Store) (req : Incoming) (name : String) : Reply × Store :=
  answer s (do
    let c ← conditions req
    let doc ← bodyJson req
    s.put name doc c)

/-- `PATCH` of one resource. -/
def patchOne (s : Store) (req : Incoming) (name : String) : Reply × Store :=
  let contentType := (header? req "content-type").getD ""
  if !(contentType.startsWith mergePatchType) then
    (jsonReply 415 (Json.obj [("error", .string
      ("PATCH requires " ++ mergePatchType ++ ", got '" ++ contentType ++ "'"))]), s)
  else
    answer s (do
      let c ← conditions req
      let doc ← bodyJson req
      s.patch name doc c)

/-- The list of all documents. -/
def listAll (s : Store) : Reply :=
  jsonReply 200 (Json.obj [("value", .array (s.list.map fun r => .object r.document))])

/-- The health check. -/
def health : Reply :=
  jsonReply 200 (Json.obj [("status", .string "ok"), ("version", .string version)])

/-- The routes of the service. -/
inductive Route where
  | health
  | collection
  | resource (segment : String)
deriving DecidableEq, Repr

/-- A character of a URI scheme. -/
def isSchemeChar (c : Char) : Bool := c.isAlphanum || c = '+' || c = '-' || c = '.'

/-- What follows `scheme://` in an absolute URI. -/
def afterScheme? (cs : List Char) : Option (List Char) :=
  let scheme := cs.takeWhile isSchemeChar
  match cs.drop scheme.length with
  | ':' :: '/' :: '/' :: rest => if scheme.isEmpty then none else some rest
  | _ => none

/-- The path of a request target, up to a query or a fragment. An absolute URI gives the path
after its authority, `/` when there is none. -/
def pathOf (uri : String) : String :=
  let upToQuery (cs : List Char) := cs.takeWhile fun c => c ≠ '?' ∧ c ≠ '#'
  match afterScheme? uri.toList with
  | some rest =>
    let path := upToQuery (rest.dropWhile fun c => c ≠ '/' ∧ c ≠ '?' ∧ c ≠ '#')
    if path.isEmpty then "/" else String.ofList path
  | none => String.ofList (upToQuery uri.toList)

/-- The route of a path. -/
def route? (path : String) : Option Route :=
  if path = "/health" then some .health
  else if path = collectionPath then some .collection
  else match dropPrefix? path (collectionPath ++ "/") with
    | some seg => if seg.isEmpty || seg.toList.contains '/' then none else some (.resource seg)
    | none => none

/-- The methods a route serves, as the `allow` header lists them. -/
def allowed : Route → String
  | .resource _ => "GET,HEAD,PUT,PATCH"
  | _ => "GET,HEAD"

/-- A reply without a body, for refused methods and unknown paths. -/
def bare (status : Nat) (extra : List (String × String) := []) : Reply := { status, headers := extra }

/-- The answer of a route to a method, the store after it. -/
def dispatch (s : Store) (req : Incoming) (r : Route) : Reply × Store :=
  let isGet := req.method = "GET" ∨ req.method = "HEAD"
  match r with
  | .health => if isGet then (health, s) else (bare 405 [("allow", allowed r)], s)
  | .collection => if isGet then (listAll s, s) else (bare 405 [("allow", allowed r)], s)
  | .resource seg =>
    if !(isGet ∨ req.method = "PUT" ∨ req.method = "PATCH") then (bare 405 [("allow", allowed r)], s)
    else match String.fromUTF8? (Text.percentDecode seg) with
      | none =>
        ({ status := 400, headers := [("content-type", "text/plain; charset=utf-8")],
           body := "Invalid URL: Invalid UTF-8 in `name`".toUTF8 }, s)
      | some name =>
        if isGet then (getOne s name, s)
        else if req.method = "PUT" then putOne s req name
        else patchOne s req name

/-- A reply with its content length named. -/
def withLength (reply : Reply) : Reply :=
  { reply with headers := reply.headers ++ [("content-length", toString reply.body.size)] }

/-- Answers a request: the reply and the store after it. A route's reply names its content length
and loses its body for `HEAD`; an unknown path starting with `/` is answered 404 with no header
at all, any other unknown target 404 with a zero length. -/
def handle (s : Store) (req : Incoming) : Reply × Store :=
  let path := pathOf req.uri
  match route? path with
  | some r =>
    let (reply, s) := dispatch s req r
    let reply := withLength reply
    ((if req.method = "HEAD" then { reply with body := ByteArray.empty } else reply), s)
  | none => ((if path.startsWith "/" then bare 404 else withLength (bare 404)), s)

end Service

end MergePatch
