import MergePatch.Http.Conditions
/-!
# Client options

A client talks to one endpoint with one API version. As JSON, the options are an object with
the members `endpoint` and `apiVersion`, or an array of the two; a member left out takes its
default, the local mock service and the version `2022-08-30`.
-/

namespace MergePatch

/-- Where a client sends requests, and which API version it asks for. -/
structure ClientOptions where
  endpoint : String := "http://127.0.0.1:17373"
  apiVersion : String := "2022-08-30"
deriving DecidableEq, Repr

namespace ClientOptions

/-- The options as JSON. -/
def toJson (o : ClientOptions) : Json :=
  Json.obj [("endpoint", .string o.endpoint), ("apiVersion", .string o.apiVersion)]

/-- The JSON form: two strings with defaults. -/
def schema : Schema Empty :=
  let d : ClientOptions := {}
  .record "ClientOptions"
    [("endpoint", .value (.string d.endpoint), .string),
      ("apiVersion", .value (.string d.apiVersion), .string)] []

/-- The options of a checked JSON form. -/
def ofChecked (j : Json) : ClientOptions :=
  let d : ClientOptions := {}
  ⟨(j.textAt "endpoint").getD d.endpoint, (j.textAt "apiVersion").getD d.apiVersion⟩

/-- Reads options from JSON text. -/
def read (input : ByteArray) : Except ReadError ClientOptions :=
  ofChecked <$> Schema.readText noNames schema input

end ClientOptions

end MergePatch
