import MergePatch.Client.Error
import MergePatch.Client.Options
import MergePatch.Http.Message
import MergePatch.Model.Any
import MergePatch.Text.Percent
/-!
# The resource client

A `Client` builds requests for the resource operations and hands them to its `send`, which runs
in a state of its own (a recorder of canned answers, a service in memory, a network). Every
request asks for JSON, the headers of the call's options are set over the client's own, and an
answer whose status is not a success becomes the `ClientError` of its status.

A resource is addressed as `{endpoint}/etag-headers/resources/{name}?api-version={version}`, the
endpoint without trailing slashes, the name escaped as one path segment and the version as a
query value; an empty name addresses nothing. The typed `put` sends the full document and `patch`
the merge patch of the assigned fields, each with the headers of its conditions, and both read
the answer back as a resource; `list` reads the first page of resources only.
-/

namespace MergePatch

/-- The content type of full JSON bodies. -/
def jsonContentType : String := "application/json"

/-- The content type of merge-patch bodies. -/
def mergePatchContentType : String := "application/merge-patch+json"

/-- A client call: it may fail, and it runs in the state of the client's transport. -/
abbrev ClientM (σ : Type) := ExceptT ClientError (StateM σ)

/-- A client: its options and the transport that carries its requests. -/
structure Client (σ : Type) where
  options : ClientOptions
  send : Request → ClientM σ Response

namespace Client

variable {σ : Type}

/-- The path of the collection below the endpoint. -/
def resourcesPath : String := "etag-headers/resources"

/-- The endpoint without trailing slashes. -/
def base (c : Client σ) : String :=
  String.ofList ((c.options.endpoint.toList.reverse.dropWhile (· = '/')).reverse)

/-- The query naming the API version. -/
def versionQuery (c : Client σ) : String :=
  "?api-version=" ++ Text.percentEncode Text.queryValueEscapes c.options.apiVersion

/-- The URL of one resource. -/
def resourceUrl (c : Client σ) (name : String) : Except ClientError String :=
  if name.isEmpty then .error (.invalidName name)
  else .ok (c.base ++ "/" ++ resourcesPath ++ "/" ++
    Text.percentEncode Text.pathSegmentEscapes name ++ c.versionQuery)

/-- The URL of the collection. -/
def collectionUrl (c : Client σ) : String := c.base ++ "/" ++ resourcesPath ++ c.versionQuery

/-- Sends a request with the call's headers; a status that is not a success is an error. -/
def execute (c : Client σ) (req : Request) (options : Headers) : ClientM σ Response := do
  let headers := (req.headers.set "Accept" jsonContentType).setAll options.entries
  let response ← c.send { req with headers }
  if response.isSuccess then pure response
  else throw (ClientError.ofStatus response.status response.body)

/-- Creates or replaces a resource from a raw body. -/
def putRaw (c : Client σ) (name : String) (body : ByteArray) (options : Headers) :
    ClientM σ Response := do
  let url ← liftExcept (c.resourceUrl name)
  c.execute { method := .put, url, headers := ({} : Headers).set "Content-Type" jsonContentType,
              body := some body } options
where
  liftExcept {α : Type} : Except ClientError α → ClientM σ α
    | .ok a => pure a
    | .error e => throw e

/-- Updates a resource from a raw merge-patch body. -/
def patchRaw (c : Client σ) (name : String) (body : ByteArray) (options : Headers) :
    ClientM σ Response := do
  let url ← putRaw.liftExcept (c.resourceUrl name)
  c.execute { method := .patch, url,
              headers := ({} : Headers).set "Content-Type" mergePatchContentType,
              body := some body } options

/-- Fetches the first page of resources as it comes. -/
def listRaw (c : Client σ) (options : Headers) : ClientM σ Response :=
  c.execute { method := .get, url := c.collectionUrl } options

/-- The headers of a list of conditions. -/
def conditionHeaders (hs : List (String × String)) : Headers := ({} : Headers).setAll hs

/-- Reads a resource from a body. -/
def readResource (body : ByteArray) : ClientM σ Resource :=
  match readShapeText (.ref .resource) body with
  | .ok j => pure (Resource.ofChecked j)
  | .error e => throw (.core e)

/-- Creates or replaces a resource with its full document; the stored resource comes back. -/
def put (c : Client σ) (name : String) (r : Resource) (conditions : Option RequestConditions) :
    ClientM σ Resource := do
  let options := conditionHeaders ((conditions.map RequestConditions.headers).getD [])
  let response ← c.putRaw name (r.write false).compact.toUTF8 options
  readResource response.body

/-- Updates a resource with the merge patch of its assigned fields; the stored resource comes
back. -/
def patch (c : Client σ) (name : String) (r : Resource) (conditions : Option MatchConditions) :
    ClientM σ Resource := do
  let options := conditionHeaders ((conditions.map MatchConditions.headers).getD [])
  let response ← c.patchRaw name (r.write true).compact.toUTF8 options
  readResource response.body

/-- The JSON form of a page of resources. -/
def pageSchema : Schema Shape :=
  .record "ResourcePage"
    [("value", .value (.array []), .seq (.ref .resource)), ("nextLink", .value .null, .option .string)]
    []

/-- The resources of the first page. -/
def list (c : Client σ) : ClientM σ (List Resource) := do
  let response ← c.listRaw {}
  match readShapeText pageSchema response.body with
  | .ok page => match page.get? "value" with
    | some (.array xs) => pure (xs.map Resource.ofChecked)
    | _ => pure []
  | .error e => throw (.core e)

end Client

end MergePatch
