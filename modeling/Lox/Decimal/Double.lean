/-!
A double as a mantissa times a power of two. A finite nonzero double is `± m · 2 ^ q`, where `m`
has at most 53 bits and `q` is at least `-1074`; both directions between a double and `m`, `q` go
through its bits, so nothing here rounds except the one step that is meant to.
-/

namespace Lox.Decimal

/-- What a double holds: not a number, an infinity, or `mantissa · 2 ^ exponent` with a sign. -/
inductive Double where
  | nan
  | infinite (negative : Bool)
  | finite (negative : Bool) (mantissa : Nat) (exponent : Int)
  deriving Repr, DecidableEq

namespace Double

/-- The exponent of the smallest positive double. -/
def leastExponent : Int := -1074

/-- The mantissa of a power of two: a one with 52 bits below it. -/
def leadingOne : Nat := Nat.pow 2 52

/-- Reads the sign, the exponent field and the fraction off the bits. The fields of exponent `0` and
`1` share the scale `2 ^ -1074`: the first has no leading one. -/
def ofBits (bits : UInt64) : Double :=
  let word := bits.toNat
  let negative := word.testBit 63
  let field : Nat := word / leadingOne % 2048
  let fraction := word % leadingOne
  if field = 2047 then
    if fraction = 0 then .infinite negative else .nan
  else if field = 0 then
    .finite negative fraction leastExponent
  else
    .finite negative (leadingOne + fraction) (leastExponent + field - 1)

/-- The parts of a double. -/
def ofFloat (x : Float) : Double := ofBits x.toBits

end Double

/-- The integer nearest to `num / den`; a half goes to the even neighbour. -/
def roundHalfEven (num den : Nat) : Nat :=
  let low := num / den
  let twice := 2 * (num % den)
  if twice < den then low
  else if den < twice then low + 1
  else low + low % 2

/-- The exponent `q` of the grid on which the doubles around `num / den` lie: the quotient has 53
bits before the point on that grid, unless it is so small that the grid is the finest one. -/
def gridExponent (num den : Nat) : Int :=
  let q : Int := num.log2 - den.log2 - 53
  -- The quotient divided by `2 ^ q` has 53 or 54 bits; in the second case the grid is too fine.
  let wide :=
    if 0 ≤ q then 2 * Double.leadingOne * (den * Nat.pow 2 q.toNat) ≤ num
    else 2 * Double.leadingOne * den ≤ num * Nat.pow 2 (-q).toNat
  max Double.leastExponent (if wide then q + 1 else q)

/-- The bits of the double nearest to the quotient of two naturals; a half goes to the even mantissa
and a quotient beyond the largest double to infinity. A mantissa that rounds up to 54 bits carries
into the exponent field, which is the double it stands for. -/
def nearestBits (num den : Nat) : UInt64 :=
  if num = 0 then 0
  else
    let q := gridExponent num den
    let mantissa :=
      if 0 ≤ q then roundHalfEven num (den * Nat.pow 2 q.toNat)
      else roundHalfEven (num * Nat.pow 2 (-q).toNat) den
    let word := (q - Double.leastExponent).toNat * Double.leadingOne + mantissa
    UInt64.ofNat (min word (2047 * Double.leadingOne))

/-- The double nearest to the quotient of two naturals. -/
def nearest (num den : Nat) : Float := Float.ofBits (nearestBits num den)

end Lox.Decimal
