import MergePatch.Client.Calls
import MergePatch.Service.Handler
/-!
# A client over the service in memory

`Service.exchange` carries a client's request to the mock service without a network: the
request's URI is its URL less the client's endpoint (trailing slashes aside), its headers and
body go as they are, and the reply comes back as the response, its headers in the order the
service set them.
-/

namespace MergePatch

namespace Service

/-- The request as the service receives it from a client of this endpoint. -/
def incoming (endpoint : String) (req : Request) : Incoming :=
  let base := String.ofList ((endpoint.toList.reverse.dropWhile (· = '/')).reverse)
  { method := req.method.name, uri := (dropPrefix? req.url base).getD req.url,
    headers := req.headers.entries, body := req.body.getD ByteArray.empty }

/-- A reply as the client receives it. -/
def response (r : Reply) : Response := { status := r.status, headers := ⟨r.headers⟩, body := r.body }

/-- Answers a client's request against the store. -/
def exchange (endpoint : String) (s : Store) (req : Request) : Response × Store :=
  let (reply, s) := handle s (incoming endpoint req)
  (response reply, s)

end Service

end MergePatch
