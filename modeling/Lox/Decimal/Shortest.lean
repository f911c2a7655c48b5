import Lox.Decimal.Double

/-!
The shortest decimal of a double. The reals that round to `m · 2 ^ q` form an interval around it,
and among the decimals in that interval the one on the coarsest power-of-ten grid is chosen. On a
given grid only the two neighbours of the value need a look: if any grid point is in the interval,
one of them is.
-/

namespace Lox.Decimal

/-- The reals that round to one double, measured on a decimal grid. All fields are multiples of one
common unit: the value, the two ends of the interval, and the step of the grid. -/
structure Window where
  value : Nat
  low : Nat
  high : Nat
  step : Nat
  /-- Whether the two ends round to the double as well: they do if its mantissa is even. -/
  closed : Bool
  deriving Repr

namespace Window

/-- The window of `m · 2 ^ q` on the grid of multiples of `10 ^ p`. Everything is scaled by four, so
that half a gap is a whole number, and by powers of two and ten that clear the negative exponents.
Below a power of two the gap to the next double is half as wide, unless the grid of the doubles is
already the finest one. -/
def make (m : Nat) (q p : Int) : Window :=
  let two := Nat.pow 2 q.toNat
  let ten := Nat.pow 10 (-p).toNat
  let below := if m = Double.leadingOne && Double.leastExponent < q then 1 else 2
  { value := 4 * m * two * ten
    low := (4 * m - below) * two * ten
    high := (4 * m + 2) * two * ten
    step := 4 * Nat.pow 2 (-q).toNat * Nat.pow 10 p.toNat
    closed := m % 2 = 0 }

/-- Whether the grid point `c` rounds to the double. -/
def contains (w : Window) (c : Nat) : Bool :=
  if w.closed then w.low ≤ c * w.step && c * w.step ≤ w.high
  else w.low < c * w.step && c * w.step < w.high

/-- The grid point in the window that is nearest to the value, the upper one if both neighbours are
equally near. -/
def nearest? (w : Window) : Option Nat :=
  let c := w.value / w.step
  match w.contains c, w.contains (c + 1) with
  | false, false => none
  | true, false => some c
  | false, true => some (c + 1)
  | true, true => some (if 2 * (w.value - c * w.step) < w.step then c else c + 1)

end Window

/-- A decimal: `significand · 10 ^ exponent`. -/
structure Scientific where
  significand : Nat
  exponent : Int
  deriving Repr, DecidableEq

/-- Tries the grids `10 ^ p`, `10 ^ (p - 1)`, … and takes the first with a point in the window. -/
def shortestFrom (m : Nat) (q : Int) : Nat → Int → Scientific
  | 0, p => ⟨(Window.make m q p).value / (Window.make m q p).step, p⟩
  | tries + 1, p =>
    match (Window.make m q p).nearest? with
    | some c => ⟨c, p⟩
    | none => shortestFrom m q tries (p - 1)

/-- A power of ten above `m · 2 ^ q`, at most three powers too large: `30103 / 100000` is the
decimal logarithm of two to five places. -/
def topExponent (m : Nat) (q : Int) : Int := (q + m.log2) * 30103 / 100000 + 2

/-- The shortest decimal that reads back as `m · 2 ^ q`, for a positive `m`. Seventeen digits always
suffice, so the search ends before its tries run out. -/
def shortest (m : Nat) (q : Int) : Scientific := shortestFrom m q 21 (topExponent m q)

end Lox.Decimal
