import MergePatch.Yaml.Decode
/-!
# Service configuration

A `ServerConfig` says where the mock service listens and which resources it holds at startup.
It is written as a YAML mapping with the keys `host` (any scalar's text, `127.0.0.1` when
absent), `port` (an unsigned integer below `2 ^ 16`, `17373` when absent) and `seed` (a
mapping from resource names to JSON documents, empty when absent). Other keys are ignored, a key
given twice is refused, and an empty text is the default configuration.
-/

namespace MergePatch

/-- Where the service listens and what it holds at startup. -/
structure ServerConfig where
  host : String := "127.0.0.1"
  port : Nat := 17373
  /-- Resources present at startup, keyed by name. -/
  seed : Fields := []
deriving Repr, Inhabited

namespace ServerConfig

/-- The socket address to bind, `host:port`. -/
def address (c : ServerConfig) : String := c.host ++ ":" ++ toString c.port

/-- The fields of a configuration as read so far. -/
structure Partial where
  host : Option String := none
  port : Option Nat := none
  seed : Option Fields := none

open Yaml Yaml.Decode in
/-- Reads the mapping of a configuration. -/
def reader : DecodeM ServerConfig :=
  mapping "struct ServerConfig" {} (fun path depth => do
    let got ← entries path ({} : Partial) fun _ valuePath acc => do
      let name ← text decodeFuel path "field identifier"
      if name == "host" then
        if acc.host.isSome then refuse "duplicate field `host`"
        let v ← text decodeFuel valuePath "a string"
        pure { acc with host := some v }
      else if name == "port" then
        if acc.port.isSome then refuse "duplicate field `port`"
        let v ← u16 decodeFuel valuePath
        pure { acc with port := some v }
      else if name == "seed" then
        if acc.seed.isSome then refuse "duplicate field `seed`"
        let v ← dict decodeFuel valuePath depth
        pure { acc with seed := some v }
      else
        skipNode
        pure acc
    let d : ServerConfig := {}
    pure { host := got.host.getD d.host, port := got.port.getD d.port, seed := got.seed.getD d.seed })
    decodeFuel .root depthLimit

/-- The configuration a YAML text describes. -/
def ofYaml (text : String) : Except Yaml.YamlError ServerConfig := Yaml.read text reader

end ServerConfig

end MergePatch
