import MergePatch.Model.Error
import MergePatch.Text.Quoted
import MergePatch.Text.Utf8
/-!
# Client errors

A call fails for one of the reasons of `ClientError`: the model could not be read or written,
the service answered with a status that is not a success, the resource name was empty, or the
request could not be delivered. `ClientError.ofStatus` maps a status and its body: 401 is a
failed authentication, 404 a missing resource, 409 and 412 a resource modified meanwhile, and
any other status a plain HTTP error; the body is read as UTF-8, leniently.
-/

namespace MergePatch

/-- Why a client call failed. -/
inductive ClientError where
  /-- The model could not be read or written. -/
  | core (e : ModelError)
  /-- The service answered 401. -/
  | authentication (body : String)
  /-- The service answered 404. -/
  | resourceNotFound (body : String)
  /-- The service answered 409 or 412. -/
  | resourceModified (status : Nat) (body : String)
  /-- The service answered another status that is not a success. -/
  | http (status : Nat) (body : String)
  /-- The resource name cannot address a resource. -/
  | invalidName (name : String)
  /-- The request could not be delivered. -/
  | transport (reason : String)
deriving Repr

namespace ClientError

/-- The error for a status and the body that came with it. -/
def ofStatus (status : Nat) (body : ByteArray) : ClientError :=
  let text := Text.decodeLossy body
  if status = 401 then .authentication text
  else if status = 404 then .resourceNotFound text
  else if status = 409 ∨ status = 412 then .resourceModified status text
  else .http status text

/-- The status the service answered with, if it answered. -/
def status? : ClientError → Option Nat
  | authentication _ => some 401
  | resourceNotFound _ => some 404
  | resourceModified s _ => some s
  | http s _ => some s
  | core _ | invalidName _ | transport _ => none

/-- The words of the error. -/
def message : ClientError → String
  | core e => e.message
  | authentication b => "authentication failed: " ++ b
  | resourceNotFound b => "resource not found: " ++ b
  | resourceModified s b => "resource modified (status " ++ toString s ++ "): " ++ b
  | http s b => "http error (status " ++ toString s ++ "): " ++ b
  | invalidName n => "invalid resource name: " ++ Text.quoted n
  | transport r => "transport error: " ++ r

end ClientError

end MergePatch
