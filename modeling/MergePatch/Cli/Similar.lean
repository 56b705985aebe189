/-!
# Similar words

When a word on the command line names nothing, the answer suggests the known names that look
like it. Two words look alike when their Jaro similarity is above `7/10`.

The Jaro similarity of words `a` and `b` counts the characters of `a` that meet an equal, not yet
matched character of `b` at most `max |a| |b| / 2 - 1` places away (the first such one, searching
from the left), and the transpositions: the places where the matched characters of `a`, read in
order, differ from those of `b`, halved. With `m` matches and `t` transpositions the similarity is
`(m / |a| + m / |b| + (m - t) / m) / 3`, and `0` when nothing matches. Two empty words are alike,
and an empty word is like no other.

The similarity is kept as an exact fraction (`Likeness`), so comparing two of them is exact.
-/

namespace MergePatch

namespace Cli

/-- A similarity as a fraction `num / den`; `den` is `0` only for the similarity of two empty
words, read as `1`. -/
structure Likeness where
  num : Nat
  den : Nat
deriving Repr, Inhabited

/-- Marks the characters of `b` that the character `c` of `a`, at place `i`, may match: the first
unmatched equal one in the window around `i`. Gives the marks after, and whether one was taken. -/
def takeMatch (b : Array Char) (window i : Nat) (c : Char) (taken : Array Bool) :
    Array Bool × Bool :=
  let lo := i - window
  let hi := min b.size (i + window + 1)
  match (List.range (hi - lo)).find? (fun k => b.getD (lo + k) c == c && !taken.getD (lo + k) true) with
  | some k => (taken.setIfInBounds (lo + k) true, true)
  | none => (taken, false)

/-- The matches of `a` in `b`: which characters of `a` and of `b` are matched. -/
def matchMarks (a b : Array Char) : List Bool × Array Bool :=
  let window := max a.size b.size / 2 - 1
  let step (acc : List Bool × Array Bool) (ic : Nat × Char) : List Bool × Array Bool :=
    let (taken, found) := takeMatch b window ic.1 ic.2 acc.2
    (acc.1 ++ [found], taken)
  (a.toList.zipIdx.map (fun (c, i) => (i, c))).foldl step ([], Array.replicate b.size false)

/-- The characters of a word that are marked. -/
def marked (w : List Char) (marks : List Bool) : List Char :=
  ((w.zip marks).filter (·.2)).map (·.1)

/-- The number of matches and of transpositions of `a` against `b`. -/
def matchCounts (a b : List Char) : Nat × Nat :=
  let (aMarks, bMarks) := matchMarks a.toArray b.toArray
  let fromA := marked a aMarks
  let fromB := marked b bMarks.toList
  let differing := ((fromA.zip fromB).filter fun (x, y) => x != y).length
  (fromA.length, differing / 2)

/-- The Jaro similarity of two words. -/
def likeness (a b : String) : Likeness :=
  let x := a.toList
  let y := b.toList
  if x.isEmpty && y.isEmpty then ⟨1, 1⟩
  else if x.isEmpty || y.isEmpty then ⟨0, 1⟩
  else
    let (m, t) := matchCounts x y
    if m == 0 then ⟨0, 1⟩
    else ⟨m * m * y.length + m * m * x.length + (m - t) * x.length * y.length,
      3 * x.length * y.length * m⟩

/-- Whether the first similarity is below the second. -/
def Likeness.below (p q : Likeness) : Bool := p.num * q.den < q.num * p.den

/-- Whether words this similar look alike: above `7/10`. -/
def Likeness.alike (p : Likeness) : Bool := 7 * p.den < 10 * p.num

/-- Puts a candidate into a list kept from least to most similar, after those as similar. -/
def insertByLikeness (e : Likeness × String) : List (Likeness × String) → List (Likeness × String)
  | [] => [e]
  | f :: rest => if e.1.below f.1 then e :: f :: rest else f :: insertByLikeness e rest

/-- The candidates that look like `word`, from the least to the most similar; equally similar
ones keep their order. -/
def similar (word : String) (candidates : List String) : List String :=
  let scored := candidates.filterMap fun c =>
    let l := likeness word c
    if l.alike then some (l, c) else none
  (scored.foldl (fun acc e => insertByLikeness e acc) []).map (·.2)

/-- The candidate most like `word`, if one looks like it; of equally similar ones the last. -/
def mostSimilar (word : String) (candidates : List String) : Option String :=
  (similar word candidates).getLast?

end Cli

end MergePatch
