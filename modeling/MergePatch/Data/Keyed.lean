/-!
# Lists kept in key order

`Keyed α` is a list of string-keyed entries in strictly increasing key order, so a key occurs at
most once and the list is its own sorted view. `Keyed.insert` replaces an entry or puts it in its
place, `Keyed.erase` drops one, and `Keyed.get?` finds one. `Names` is the same idea for a set
of names: `Names.insert` keeps the list sorted and free of repeats.

Keys compare by code point, which is also the order of their UTF-8 bytes.
-/

namespace MergePatch

/-- Entries in strictly increasing key order. -/
abbrev Keyed (α : Type) := List (String × α)

namespace Keyed

variable {α : Type}

/-- The value under `k`. -/
def get? (xs : Keyed α) (k : String) : Option α :=
  (xs.find? (·.1 == k)).map (·.2)

/-- Sets the entry `k` to `v`: replaces it if present, else inserts it before the first
greater key. -/
def insert (xs : Keyed α) (k : String) (v : α) : Keyed α :=
  match xs with
  | [] => [(k, v)]
  | (k', v') :: rest =>
    if k < k' then (k, v) :: (k', v') :: rest
    else if k = k' then (k, v) :: rest
    else (k', v') :: insert rest k v

/-- Drops the entry `k`, if present. -/
def erase (xs : Keyed α) (k : String) : Keyed α :=
  xs.filter (·.1 != k)

/-- The entries of `ps` set in turn: a later pair with the same key wins. -/
def ofList (ps : List (String × α)) : Keyed α :=
  ps.foldl (fun acc (k, v) => insert acc k v) []

/-- The keys, in order. -/
def keys (xs : Keyed α) : List String := xs.map (·.1)

/-- The same keys with each value mapped. -/
def mapValues {β : Type} (f : α → β) (xs : Keyed α) : Keyed β :=
  xs.map fun (k, v) => (k, f v)

end Keyed

/-- A set of names, as a strictly increasing list. -/
abbrev Names := List String

namespace Names

/-- Adds a name, keeping the list sorted and free of repeats. -/
def insert (ns : Names) (n : String) : Names :=
  match ns with
  | [] => [n]
  | m :: rest =>
    if n < m then n :: m :: rest
    else if n = m then m :: rest
    else m :: insert rest n

end Names

/-- Splits at the first occurrence of `c`: the text before it and the text after it. -/
def splitOnce (s : String) (c : Char) : Option (String × String) :=
  let cs := s.toList
  match cs.findIdx? (· == c) with
  | some i => some (String.ofList (cs.take i), String.ofList (cs.drop (i + 1)))
  | none => none

/-- The rest of `s` after the prefix `p`, if `s` starts with it. -/
def dropPrefix? (s p : String) : Option String :=
  if p.toList.isPrefixOf s.toList then some (String.ofList (s.toList.drop p.length)) else none

end MergePatch
