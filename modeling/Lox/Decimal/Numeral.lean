import Lox.Decimal.Shortest

/-!
Numbers as text. A number is written with the fewest digits that read back, always positionally,
with no point when there is no fraction. Only the words for the values that are not finite depend
on where the number is shown, so they are a parameter.
-/

namespace Lox.Decimal

/-- The words for the doubles that have no digits. A negative infinity has a minus in front. -/
structure Words where
  nan : String
  infinity : String
  deriving Repr

/-- The digits of a natural number, most significant first. -/
def digits (n : Nat) : List Char := Nat.toDigits 10 n

/-- Writes `significand · 10 ^ exponent` without an exponent: zeros are put behind the digits, or
a point among or before them, with one zero in front of a leading point. -/
def Scientific.positional (s : Scientific) : List Char :=
  let ds := digits s.significand
  if 0 ≤ s.exponent then
    ds ++ List.replicate s.exponent.toNat '0'
  else
    let places := (-s.exponent).toNat
    let padded := List.replicate (places + 1 - ds.length) '0' ++ ds
    let whole := padded.length - places
    padded.take whole ++ '.' :: padded.drop whole

/-- The text of a double. Zero keeps its sign. -/
def Double.text (words : Words) : Double → String
  | .nan => words.nan
  | .infinite negative => (if negative then "-" else "") ++ words.infinity
  | .finite negative mantissa exponent =>
    let body := if mantissa = 0 then ['0'] else (shortest mantissa exponent).positional
    (if negative then "-" else "") ++ String.ofList body

/-- The text of a number. -/
def text (words : Words) (x : Float) : String := (Double.ofFloat x).text words

/-- The natural number that a list of digits stands for. -/
def valueOfDigits (ds : List Char) : Nat :=
  ds.foldl (fun n d => 10 * n + (d.toNat - '0'.toNat)) 0

/-- The double nearest to a numeral: digits with at most one point among them. -/
def read (numeral : List Char) : Float :=
  let whole := numeral.takeWhile (· ≠ '.')
  let fraction := (numeral.dropWhile (· ≠ '.')).drop 1
  nearest (valueOfDigits (whole ++ fraction)) (Nat.pow 10 fraction.length)

end Lox.Decimal
