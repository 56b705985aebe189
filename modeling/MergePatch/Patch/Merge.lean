import MergePatch.Json.Value
/-!
# JSON merge patches

`Json.mergePatch target patch` applies a merge patch: a patch that is not an object replaces the
target; otherwise the target becomes an object (an empty one if it was not), each `null` member
of the patch removes the member of that name, each object member is merged into the member of
that name (an empty object if there is none), and every other member replaces it.

`Json.mergeDiff old new` builds a merge patch from `old` to `new`: when both are objects, it has
a member for each key of `new` whose value differs (the diff of the two values), one for each key
of `new` not in `old` (its value), and `null` for each key of `old` not in `new`; otherwise it is
`new`. Values are compared by `Json.beq`.
-/

namespace MergePatch

namespace Json

/-- The members of an object; no members for any other value. -/
def membersOf : Json → Fields
  | .object fs => fs
  | _ => []

/-- Applies the members of a patch, in order, to the members of a target: `null` removes the
member, an object is merged into the member (an empty object if there is none), and any other
value replaces it. -/
def mergeMembers (ts : Fields) : List (String × Json) → Fields
  | [] => ts
  | (k, .null) :: rest => mergeMembers (Keyed.erase ts k) rest
  | (k, .object ps) :: rest =>
    let inner := mergeMembers ((Keyed.get? ts k).getD (.object [])).membersOf ps
    mergeMembers (Keyed.insert ts k (.object inner)) rest
  | (k, v) :: rest => mergeMembers (Keyed.insert ts k v) rest

/-- Applies the merge patch `patch` to `target`. -/
def mergePatch (target : Json) : Json → Json
  | .object ps => .object (mergeMembers target.membersOf ps)
  | p => p

mutual

/-- The merge patch that turns `old` into `new`. -/
def mergeDiff (old : Json) : Json → Json
  | .object ns =>
    match old with
    | .object os =>
      let changed := diffMembers os ns []
      .object (os.foldl (fun acc (k, _) =>
        if (Keyed.get? ns k).isSome then acc else Keyed.insert acc k .null) changed)
    | _ => .object ns
  | n => n

/-- The members of `ns` that differ from those of `os`, added to `acc`. -/
def diffMembers (os : Fields) : List (String × Json) → Fields → Fields
  | [], acc => acc
  | (k, nv) :: rest, acc =>
    match Keyed.get? os k with
    | some ov =>
      if ov == nv then diffMembers os rest acc
      else diffMembers os rest (Keyed.insert acc k (mergeDiff ov nv))
    | none => diffMembers os rest (Keyed.insert acc k nv)

end

end Json

end MergePatch
