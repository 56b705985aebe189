import MergePatch.Time.HttpDate
import MergePatch.Time.Rfc3339
import MergePatch.Json.Read
/-!
# Conditional requests

A request may be made conditional on the entity tag of the resource (`MatchConditions`) and, for a
full replacement, on its modification date (`RequestConditions`). Each set condition becomes one
header; dates are written as HTTP dates. As JSON, the conditions are an object with camel-case
members, dates in RFC 3339 form, and unset conditions left out.

Reading conditions from JSON text follows `MatchConditions.schema` and `RequestConditions.schema`:
every member may be missing or `null`; unknown members are skipped. The entity tags of request
conditions are read after the dates, from the members the dates did not claim, so the request
conditions are read only from an object.

`etagMatches` decides a tag condition: the header lists tags separated by commas, and matches when
one of them, trimmed, is `*` or the current tag.
-/

namespace MergePatch

/-- The header naming tags of which one must be current. -/
def ifMatchHeader : String := "If-Match"

/-- The header naming tags of which none may be current. -/
def ifNoneMatchHeader : String := "If-None-Match"

/-- The header naming a date the resource must have changed since. -/
def ifModifiedSinceHeader : String := "If-Modified-Since"

/-- The header naming a date the resource must not have changed since. -/
def ifUnmodifiedSinceHeader : String := "If-Unmodified-Since"

/-- Whether a tag condition header matches the current tag: some comma-separated entry, trimmed,
is `*` or the tag itself. -/
def etagMatches (header current : String) : Bool :=
  (header.toList.splitOn ',').any fun c =>
    Text.trim (String.ofList c) == "*" || Text.trim (String.ofList c) == current

/-- The names a schema of conditions refers to: there are none. -/
def noNames : Empty → Schema Empty := fun e => nomatch e

/-- Entity tag conditions. -/
structure MatchConditions where
  ifMatch : Option String := none
  ifNoneMatch : Option String := none
deriving DecidableEq, Repr

namespace MatchConditions

/-- The headers of the set conditions. -/
def headers (c : MatchConditions) : List (String × String) :=
  (c.ifMatch.map fun t => (ifMatchHeader, t)).toList ++
    (c.ifNoneMatch.map fun t => (ifNoneMatchHeader, t)).toList

/-- The set conditions as JSON members. -/
def members (c : MatchConditions) : List (String × Json) :=
  (c.ifMatch.map fun t => ("ifMatch", Json.string t)).toList ++
    (c.ifNoneMatch.map fun t => ("ifNoneMatch", Json.string t)).toList

/-- The conditions as JSON. -/
def toJson (c : MatchConditions) : Json := Json.obj c.members

/-- The fields of the JSON form: two optional strings. -/
def fields : List (String × Absent × Schema Empty) :=
  [("ifMatch", .value .null, .option .string), ("ifNoneMatch", .value .null, .option .string)]

/-- The JSON form, from an object or an array. -/
def schema : Schema Empty := .record "MatchConditions" fields []

/-- The conditions of a checked JSON form. -/
def ofChecked (j : Json) : MatchConditions := ⟨j.textAt "ifMatch", j.textAt "ifNoneMatch"⟩

/-- Reads conditions from JSON text. -/
def read (input : ByteArray) : Except ReadError MatchConditions :=
  ofChecked <$> Schema.readText noNames schema input

end MatchConditions

/-- Entity tag and modification date conditions. -/
structure RequestConditions where
  tags : MatchConditions := {}
  ifModifiedSince : Option Timestamp := none
  ifUnmodifiedSince : Option Timestamp := none
deriving DecidableEq, Repr

namespace RequestConditions

/-- Tag conditions with no date conditions. -/
def ofMatch (tags : MatchConditions) : RequestConditions := { tags }

/-- The headers of the set conditions: the tags, then the unmodified and modified dates. -/
def headers (c : RequestConditions) : List (String × String) :=
  c.tags.headers ++
    (c.ifUnmodifiedSince.map fun t => (ifUnmodifiedSinceHeader, t.httpDate)).toList ++
    (c.ifModifiedSince.map fun t => (ifModifiedSinceHeader, t.httpDate)).toList

/-- The conditions as JSON, dates in RFC 3339 form. -/
def toJson (c : RequestConditions) : Json :=
  Json.obj (c.tags.members ++
    (c.ifModifiedSince.map fun t => ("ifModifiedSince", Json.string t.rfc3339)).toList ++
    (c.ifUnmodifiedSince.map fun t => ("ifUnmodifiedSince", Json.string t.rfc3339)).toList)

/-- What is expected of a date. -/
def dateExpecting : String := "an RFC 3339 formatted date and time string"

/-- A moment as checked JSON: its seconds and nanoseconds. -/
def stampJson (t : Timestamp) : Json := Json.obj [("secs", Json.int t.secs), ("nanos", Json.int t.nanos)]

/-- The moment of checked JSON. -/
def stampOf? (j : Json) : Option Timestamp := do
  let secs ← (j.get? "secs").bind Json.intValue?
  let nanos ← (j.get? "nanos").bind Json.intValue?
  pure ⟨secs, nanos.toNat⟩

/-- A date in RFC 3339 form. -/
def dateSchema : Schema Empty :=
  .text dateExpecting fun s =>
    match Timestamp.readRfc3339 s with
    | .ok t => .ok (stampJson t)
    | .error e => .error e.message

/-- The JSON form: an object with optional dates, and tag conditions among its other members. -/
def schema : Schema Empty :=
  .record "RequestConditions"
    [("ifModifiedSince", .value .null, .option dateSchema),
      ("ifUnmodifiedSince", .value .null, .option dateSchema)]
    MatchConditions.fields

/-- The conditions of a checked JSON form. -/
def ofChecked (j : Json) : RequestConditions :=
  { tags := MatchConditions.ofChecked j
    ifModifiedSince := (j.get? "ifModifiedSince").bind stampOf?
    ifUnmodifiedSince := (j.get? "ifUnmodifiedSince").bind stampOf? }

/-- Reads conditions from JSON text. -/
def read (input : ByteArray) : Except ReadError RequestConditions :=
  ofChecked <$> Schema.readText noNames schema input

end RequestConditions

end MergePatch
