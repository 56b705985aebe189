import MergePatch.Service.Store
/-!
# Histories of the store

Clients act on the store one whole call at a time: a `put` or a `patch` of a named resource with
its conditions, or a `get`. `Store.call` answers one call with the resource and the store after
it, and `Store.accepted` lists the calls of a run that went through, the clock moving between
them.

`Store.Reachable mint seeds` holds of every store a service can be in: seeded from empty with the
source of tags `mint`, then any calls, with the clock moving between them.
-/

namespace MergePatch

/-- A call on the store. -/
inductive StoreCall where
  /-- Creates or replaces a resource. -/
  | put (name : String) (body : Json) (c : RequestConditions)
  /-- Merges a patch into a resource. -/
  | patch (name : String) (body : Json) (c : RequestConditions)
  /-- Reads a resource. -/
  | get (name : String)

namespace StoreCall

/-- The name of the resource a call is about. -/
def name : StoreCall → String
  | put n _ _ | patch n _ _ | get n => n

/-- The If-Match condition of a write. -/
def ifMatch : StoreCall → Option String
  | put _ _ c | patch _ _ c => c.tags.ifMatch
  | get _ => none

/-- Whether a call is a `put` of `name` that may only create: it carries `If-None-Match: *`. -/
def createsOnly (name : String) : StoreCall → Bool
  | put n _ c => n == name && c.tags.ifNoneMatch == some "*"
  | _ => false

end StoreCall

namespace Store

/-- The answer to a call and the store after it. -/
def call (s : Store) : StoreCall → Except StoreError (Stored × Store)
  | .put n b c => s.put n b c
  | .patch n b c => s.patch n b c
  | .get n => (s.get n).map fun r => (r, s)

/-- The calls of a run that went through, in order. Each call is made when the clock reads the
moment paired with it; a failed call leaves the store as it was. -/
def accepted (s : Store) : List (Timestamp × StoreCall) → List StoreCall
  | [] => []
  | (clock, c) :: cs =>
    match { s with clock }.call c with
    | .ok (_, s') => c :: accepted s' cs
    | .error _ => accepted s cs

/-- The stores a service reaches: seeded from empty, then any calls, the clock moving between
them. -/
inductive Reachable (mint : Nat → String) (seeds : List (String × Json)) : Store → Prop
  | seeded {clock : Timestamp} {s : Store} :
      (Store.empty mint clock).seeded seeds = .ok s → Reachable mint seeds s
  | call {s s' : Store} {c : StoreCall} {r : Stored} :
      Reachable mint seeds s → s.call c = .ok (r, s') → Reachable mint seeds s'
  | tick {s : Store} (clock : Timestamp) : Reachable mint seeds s → Reachable mint seeds { s with clock }

end Store

end MergePatch
