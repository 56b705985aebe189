/-!
# HTTP messages

`Headers` is a list of header fields in the order they were first set. Names compare without
regard to ASCII case, and setting a name that is present replaces the value of its first field
and keeps the spelling it was first set with, so a name occurs at most once when only `set`
builds the list.

A `Request` carries a method, a URL, headers and perhaps a body; a `Response` a status,
headers and a body. A status from 200 to 299 is a success.
-/

namespace MergePatch

/-- Whether two header names are the same, ASCII case aside. -/
def sameHeaderName (a b : String) : Bool :=
  a.toList.map Char.toLower == b.toList.map Char.toLower

/-- Header fields in the order they were first set. -/
structure Headers where
  entries : List (String × String) := []
deriving DecidableEq, Repr

namespace Headers

/-- The fields with the first one named `name` given `value`, if one is. -/
def replaceFirst (name value : String) : List (String × String) → Option (List (String × String))
  | [] => none
  | (n, v) :: rest =>
    if sameHeaderName n name then some ((n, value) :: rest)
    else ((n, v) :: ·) <$> replaceFirst name value rest

/-- Sets a header: replaces the value of a field with this name, or appends a field. -/
def set (h : Headers) (name value : String) : Headers :=
  match replaceFirst name value h.entries with
  | some es => ⟨es⟩
  | none => ⟨h.entries ++ [(name, value)]⟩

/-- Sets each header of a list in turn. -/
def setAll (h : Headers) (fields : List (String × String)) : Headers :=
  fields.foldl (fun h (n, v) => h.set n v) h

/-- The value of the first field with this name. -/
def get? (h : Headers) (name : String) : Option String :=
  (h.entries.find? fun (n, _) => sameHeaderName n name).map (·.2)

/-- The number of fields. -/
def length (h : Headers) : Nat := h.entries.length

end Headers

/-- The methods a client sends. -/
inductive Method where
  | get
  | put
  | patch
deriving DecidableEq, Repr

/-- The upper-case name of a method. -/
def Method.name : Method → String
  | .get => "GET"
  | .put => "PUT"
  | .patch => "PATCH"

/-- An outgoing request. -/
structure Request where
  method : Method
  url : String
  headers : Headers := {}
  body : Option ByteArray := none

/-- A received response. -/
structure Response where
  status : Nat
  headers : Headers := {}
  body : ByteArray := ByteArray.empty

/-- The header carrying a resource's entity tag. -/
def etagHeader : String := "ETag"

namespace Response

/-- Whether the status is a success, 200 to 299. -/
def isSuccess (r : Response) : Bool := 200 ≤ r.status && r.status < 300

/-- The entity tag the response carries. -/
def etag? (r : Response) : Option String := r.headers.get? etagHeader

end Response

end MergePatch
