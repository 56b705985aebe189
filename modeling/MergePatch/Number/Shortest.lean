import MergePatch.Number.Binary64
/-!
# Shortest decimal text of a binary64 value

Every finite binary64 value `x` stands for the interval of reals that round to it. The text of
`x` is the decimal with the fewest significant digits inside that interval, and of two such
decimals the one nearer to `x` (an exact tie goes to the even last digit). `shortestDigits`
finds it by trying one, two, … seventeen significant digits: on each decimal grid only the two
grid points next to `x` can lie inside the interval, and seventeen digits always suffice.
Everything is compared in exact `Nat` arithmetic.

`FloatStyle` holds the choices of layout: which decimal exponents are written positionally,
and how the exponent is marked otherwise. `FloatStyle.json` is the layout of JSON output and of
numbers quoted in error messages: positional from `1e-5` up to below `1e16`, a whole number
keeps `.0`, and otherwise one digit before the point and an exponent with its sign, `1e+20`,
`2.5e-8`.
-/

namespace MergePatch

namespace Binary64

/-- `a` times `10 ^ p` times `2 ^ q`, split into a numerator and a denominator. -/
def scaleParts (a : Nat) (p q : Int) : Nat × Nat :=
  (a * Nat.pow 10 p.toNat * Nat.pow 2 q.toNat, Nat.pow 10 (-p).toNat * Nat.pow 2 (-q).toNat)

/-- Compares `c * 10 ^ p` with `v * 2 ^ k`. -/
def compareScaled (c : Nat) (p : Int) (v : Nat) (k : Int) : Ordering :=
  let (ln, ld) := scaleParts c p 0
  let (rn, rd) := scaleParts v 0 k
  compare (ln * rd) (rn * ld)

/-- The largest `t` with `10 ^ t ≤ m * 2 ^ e`, for `m > 0`. -/
def floorLog10 (m : Nat) (e : Int) : Int :=
  let lg : Int := (Nat.log2 m : Int) + e
  let est : Int := (lg * 78913) / 262144
  if compareScaled 1 (est + 1) m e != .gt then est + 1 else est

/-- The decimal `(c, p)`, meaning `c * 10 ^ p`, with the trailing zeros of `c` moved into `p`. -/
def trimZeros (c : Nat) (p : Int) : Nat × Int :=
  go c p c
where
  /-- Strips one zero per step; `fuel` bounds the steps by the value itself. -/
  go (c : Nat) (p : Int) : Nat → Nat × Int
    | 0 => (c, p)
    | fuel + 1 => if c ≠ 0 ∧ c % 10 = 0 then go (c / 10) (p + 1) fuel else (c, p)

/-- The shortest decimal `(c, p)` inside the rounding interval of a finite nonzero value, nearest
to the value among those of that length; `c` has no trailing zero. -/
def shortestDigits (x : Binary64) : Nat × Int :=
  let m := x.mantissa
  let e := x.exponent
  -- the interval's ends are `lo * 2 ^ (e - 2)` and `hi * 2 ^ (e - 2)`
  let lo := if x.fraction = 0 ∧ x.biased > 1 then 4 * m - 1 else 4 * m - 2
  let hi := 4 * m + 2
  let closed := m % 2 = 0
  let inside (c : Nat) (p : Int) : Bool :=
    let a := compareScaled c p lo (e - 2)
    let b := compareScaled c p hi (e - 2)
    (a == .gt || (closed && a == .eq)) && (b == .lt || (closed && b == .eq))
  let top := floorLog10 m e
  let pick (p : Int) : Option (Nat × Int) :=
    let (n, d) := scaleParts (4 * m) (-p) (e - 2)
    let below := n / d
    let above := below + 1
    let inBelow := inside below p
    let inAbove := n % d ≠ 0 && inside above p
    if inBelow && inAbove then
      -- twice the distances, in units of `1 / d`
      let db := 2 * (n - below * d)
      let da := 2 * (above * d - n)
      if db < da then some (below, p)
      else if da < db then some (above, p)
      else if below % 2 = 0 then some (below, p) else some (above, p)
    else if inBelow then some (below, p)
    else if inAbove then some (above, p)
    else none
  let found := (List.range 17).findSome? fun (k : Nat) => pick (top - Int.ofNat k)
  let (c, p) := found.getD ((scaleParts (4 * m) (-(top - 16)) (e - 2)).1 /
    (scaleParts (4 * m) (-(top - 16)) (e - 2)).2, top - 16)
  trimZeros c p

end Binary64

/-- The layout of a decimal: positional when the decimal exponent of the first digit lies in
`[minPositional, maxPositional]`, otherwise one digit, a point if more follow, `e`, and the
exponent with a `+` or `-`. -/
structure FloatStyle where
  minPositional : Int
  maxPositional : Int
  plusInExponent : Bool

namespace FloatStyle

/-- Positional from `1e-5` to below `1e16`; `1e+20` and `2.5e-8` otherwise. -/
def json : FloatStyle := ⟨-5, 15, true⟩

/-- Always positional: `100000000000000000000.0`, `0.0000001`. -/
def positional : FloatStyle := ⟨-400, 400, false⟩

/-- `n` zeros. -/
def zeros (n : Nat) : String := String.ofList (List.replicate n '0')

/-- Lays out the digits `c` (no trailing zero) times `10 ^ p`. -/
def layout (s : FloatStyle) (c : Nat) (p : Int) : String :=
  let ds := toString c
  let n := ds.length
  -- the value is `0.ds * 10 ^ kk`
  let kk : Int := n + p
  let lead := kk - 1
  if s.minPositional ≤ lead ∧ lead ≤ s.maxPositional then
    if 0 ≤ p then ds ++ zeros p.toNat ++ ".0"
    else if 0 < kk then
      String.ofList (ds.toList.take kk.toNat) ++ "." ++ String.ofList (ds.toList.drop kk.toNat)
    else "0." ++ zeros (-kk).toNat ++ ds
  else
    let rest := String.ofList (ds.toList.drop 1)
    let mant := String.ofList (ds.toList.take 1) ++ (if rest.isEmpty then "" else "." ++ rest)
    let sign := if lead < 0 then "-" else if s.plusInExponent then "+" else ""
    mant ++ "e" ++ sign ++ toString lead.natAbs

/-- The text of a finite binary64 value in this style; zeros are `0.0` and `-0.0`. -/
def render (s : FloatStyle) (x : Binary64) : String :=
  let sign := if x.negative then "-" else ""
  if x.isZero then sign ++ "0.0"
  else
    let (c, p) := x.shortestDigits
    sign ++ s.layout c p

end FloatStyle

end MergePatch
