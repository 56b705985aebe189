/-!
# Binary64 values

A JSON number that is not an integer is held as an IEEE 754 binary64 value, by its 64-bit
pattern. This module reads the pattern as a sign, an integer mantissa and a power of two, and
builds patterns back from exact rationals: `ofRatio` rounds a quotient of natural numbers to the
nearest binary64 value, a tie going to the even mantissa, and a magnitude beyond the largest
finite value becomes infinity. Multiplication and division of two finite values are the exact
product or quotient rounded once by `ofRatio`, which is what the standard asks of them.

All arithmetic is on `Nat` and `Int`, so every rounding is one division and one remainder test.
-/

namespace MergePatch

/-- An IEEE 754 binary64 value, held by its bit pattern. -/
structure Binary64 where
  bits : UInt64
deriving DecidableEq, Inhabited, Repr

namespace Binary64

/-- The number of stored fraction bits. -/
def fractionBits : Nat := 52

/-- The least exponent of a subnormal value's last bit. -/
def minExponent : Int := -1074

/-- The sign bit: `true` for negative values and for `-0.0`. -/
def negative (x : Binary64) : Bool := x.bits >>> 63 == 1

/-- The biased exponent field, `0` for zeros and subnormals, `2047` for infinities and NaN. -/
def biased (x : Binary64) : Nat := ((x.bits >>> 52) &&& 0x7FF).toNat

/-- The stored fraction field. -/
def fraction (x : Binary64) : Nat := (x.bits &&& 0xFFFFFFFFFFFFF).toNat

/-- A value is finite unless its exponent field is all ones. -/
def isFinite (x : Binary64) : Bool := x.biased != 2047

/-- Both zeros, whatever their sign. -/
def isZero (x : Binary64) : Bool := x.biased == 0 && x.fraction == 0

/-- The integer mantissa of a finite value: the fraction with its hidden bit. -/
def mantissa (x : Binary64) : Nat :=
  if x.biased = 0 then x.fraction else x.fraction + Nat.pow 2 fractionBits

/-- The power of two of the mantissa's last bit, so that `|x| = mantissa * 2 ^ exponent`. -/
def exponent (x : Binary64) : Int :=
  (if x.biased = 0 then (1 : Int) else (x.biased : Int)) - 1075

/-- The pattern with the given sign, exponent field and fraction field. -/
def pack (neg : Bool) (biased fraction : Nat) : Binary64 :=
  ⟨UInt64.ofNat ((if neg then Nat.pow 2 63 else 0) + biased * Nat.pow 2 52 + fraction)⟩

/-- Zero with the given sign. -/
def zero (neg : Bool := false) : Binary64 := pack neg 0 0

/-- Infinity with the given sign. -/
def infinity (neg : Bool := false) : Binary64 := pack neg 2047 0

/-- The quiet not-a-number value with the sign bit clear. -/
def nan : Binary64 := pack false 2047 (Nat.pow 2 51)

/-- Whether a value is not a number: all exponent bits set and a nonzero fraction. -/
def isNaN (x : Binary64) : Bool := x.biased == 2047 && x.fraction != 0

/-- The same magnitude with the sign flipped. -/
def neg (x : Binary64) : Binary64 := ⟨x.bits ^^^ 0x8000000000000000⟩

/-- Numeric equality of finite values: the two zeros are equal, all else by pattern. -/
def sameValue (x y : Binary64) : Bool := (x.isZero && y.isZero) || x.bits == y.bits

/-- `2 ^ k` for an integer `k`, as a numerator and a denominator. -/
def pow2Parts (k : Int) : Nat × Nat :=
  if 0 ≤ k then (Nat.pow 2 k.toNat, 1) else (1, Nat.pow 2 (-k).toNat)

/-- The largest `t` with `2 ^ t ≤ n / d`, for `n` and `d` positive. -/
def floorLog2 (n d : Nat) : Int :=
  let t : Int := (Nat.log2 n : Int) - (Nat.log2 d : Int)
  let (a, b) := pow2Parts t
  if n * b ≥ d * a then t else t - 1

/-- Rounds `q + r / den` to an integer, a half going to the even neighbour. -/
def roundHalfEven (q r den : Nat) : Nat :=
  if 2 * r > den then q + 1
  else if 2 * r = den ∧ q % 2 = 1 then q + 1
  else q

/-- The binary64 value nearest to `n / d` with the given sign; ties go to the even mantissa and
a magnitude beyond the finite range is infinity. `d = 0` is read as `d = 1`. -/
def ofRatio (neg : Bool) (n d : Nat) : Binary64 :=
  let d := max d 1
  if n = 0 then zero neg else
  let e : Int := max minExponent (floorLog2 n d - (fractionBits : Int))
  let (a, b) := pow2Parts e
  -- n / d = (num / den) * 2 ^ e
  let num := n * b
  let den := d * a
  let q := roundHalfEven (num / den) (num % den) den
  let (q, e) := if q = Nat.pow 2 (fractionBits + 1) then (Nat.pow 2 fractionBits, e + 1) else (q, e)
  if q < Nat.pow 2 fractionBits then pack neg 0 q
  else
    let field := e + 1075
    if field ≥ 2047 then infinity neg
    else pack neg field.toNat (q - Nat.pow 2 fractionBits)

/-- The binary64 value nearest to `m * 2 ^ k`. -/
def ofScaled (neg : Bool) (m : Nat) (k : Int) : Binary64 :=
  let (a, b) := pow2Parts k
  ofRatio neg (m * a) b

/-- The binary64 value nearest to a natural number. -/
def ofNat (n : Nat) : Binary64 := ofRatio false n 1

/-- The binary64 value nearest to `10 ^ k`, for `k ≥ 0`. -/
def pow10 (k : Nat) : Binary64 := ofRatio false (Nat.pow 10 k) 1

/-- The correctly rounded product of two finite values. -/
def mul (x y : Binary64) : Binary64 :=
  ofScaled (x.negative != y.negative) (x.mantissa * y.mantissa) (x.exponent + y.exponent)

/-- The correctly rounded quotient of two finite values, the divisor not zero. -/
def div (x y : Binary64) : Binary64 :=
  let (a, b) := pow2Parts (x.exponent - y.exponent)
  ofRatio (x.negative != y.negative) (x.mantissa * a) (y.mantissa * b)

/-- The binary64 value nearest to `m * 10 ^ k`, rounded once. -/
def ofDecimal (neg : Bool) (m : Nat) (k : Int) : Binary64 :=
  if 0 ≤ k then ofRatio neg (m * Nat.pow 10 k.toNat) 1 else ofRatio neg m (Nat.pow 10 (-k).toNat)

end Binary64

end MergePatch
