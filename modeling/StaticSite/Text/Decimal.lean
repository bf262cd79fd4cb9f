import StaticSite.Text.Numeral

/-!
# Decimal text of binary fractions

A double is written with the fewest significant digits that read back as the same double, and of
those with the digits nearest to it. `Magnitude` is the exact value `significand * 2 ^ exponent`;
the search for digits is done on whole numbers.
-/

namespace StaticSite.Text

/-- The positive number `significand * 2 ^ exponent`. -/
structure Magnitude where
  significand : Nat
  exponent : Int
  /-- Whether the next smaller double is only half as far away as the next larger one. -/
  atPowerOfTwo : Bool

namespace Magnitude

/-- The finite positive double with the given bits (the sign bit is ignored). -/
def ofBits (bits : Nat) : Magnitude :=
  let fraction : Nat := bits % Nat.pow 2 52
  let biased : Nat := bits / Nat.pow 2 52 % Nat.pow 2 11
  if biased = 0 then ⟨fraction, -1074, false⟩
  else ⟨Nat.pow 2 52 + fraction, (biased : Int) - 1075, fraction == 0 && biased != 1⟩

/-- Four times the value over `10 ^ power`, as a fraction: numerator and denominator. -/
def scaled (m : Magnitude) (power : Int) : Nat × Nat :=
  (4 * m.significand * Nat.pow 2 m.exponent.toNat * Nat.pow 10 (-power).toNat,
    Nat.pow 2 (-m.exponent).toNat * Nat.pow 10 power.toNat)

/-- Whether `digits * 10 ^ power` reads back as the double: it lies between the midpoints to the
two neighbours, or on one of them when the significand is even. -/
def readsBack (m : Magnitude) (digits : Nat) (power : Int) : Bool :=
  let (value, one) := m.scaled power
  let half := 2 * value / (4 * m.significand)
  let low := if m.atPowerOfTwo then half / 2 else half
  let point := 4 * digits * one
  if m.significand % 2 = 0 then value ≤ point + low && point ≤ value + half
  else value < point + low && point < value + half

/-- The multiple of `10 ^ power` that reads back and is nearest to the double, if any does. -/
def nearest? (m : Magnitude) (power : Int) : Option Nat :=
  let (value, one) := m.scaled power
  let below := value / (4 * one)
  let nearer := value - 4 * below * one ≤ 4 * (below + 1) * one - value
  let tie := value - 4 * below * one = 4 * (below + 1) * one - value
  let first := if tie then (if below % 2 = 0 then below else below + 1)
    else if nearer then below else below + 1
  let second := if first = below then below + 1 else below
  if m.readsBack first power then some first
  else if m.readsBack second power then some second
  else none

/-- The least power of ten above the number: `10 ^ (top - 1) ≤ m < 10 ^ top`, found downwards
from `top`. -/
def topPower (m : Magnitude) : Nat → Int → Int
  | 0, top => top
  | fuel + 1, top =>
      let (value, one) := m.scaled (top - 1)
      if 4 * one ≤ value then top else topPower m fuel (top - 1)

/-- The shortest digits with the place of the point after their first `point` digits, trying
`count`, `count + 1`, … digits. -/
def shortestFrom (m : Magnitude) (top : Int) : Nat → Nat → Nat × Int
  | 0, count => ((m.nearest? (top - count)).getD 0, top - count)
  | fuel + 1, count =>
      match m.nearest? (top - count) with
      | some digits => (digits, top - count)
      | none => shortestFrom m top fuel (count + 1)

/-- Digits and power of ten of the shortest decimal that reads back. -/
def shortest (m : Magnitude) : Nat × Int :=
  m.shortestFrom (m.topPower 640 310) 17 1

end Magnitude

/-- How decimals are written: positional while the decimal exponent is in range, always with a
point; otherwise one digit before the point and an exponent of at least two digits. -/
structure DecimalFormat where
  leastExponent : Int
  mostExponent : Int
  exponentWidth : Nat

def dropZeros (digits : Text) : Text := (digits.reverse.dropWhile (· == '0')).reverse

def DecimalFormat.write (format : DecimalFormat) (digits : Text) (exponent : Int) : Text :=
  if format.leastExponent ≤ exponent ∧ exponent ≤ format.mostExponent then
    if exponent < 0 then
      "0.".toList ++ List.replicate (-exponent - 1).toNat '0' ++ digits
    else
      let whole := exponent.toNat + 1
      let left := digits.take whole
      let right := digits.drop whole
      left ++ List.replicate (whole - left.length) '0' ++ '.' :: (if right.isEmpty then ['0'] else right)
  else
    let power := ofNat exponent.natAbs
    digits.take 1 ++ (if digits.length ≤ 1 then [] else '.' :: digits.drop 1) ++
      'e' :: (if exponent < 0 then '-' else '+') ::
        (List.replicate (format.exponentWidth - power.length) '0' ++ power)

/-- Numbers from `0.0001` up to below `10 ^ 16` are written positionally. -/
def plainDecimal : DecimalFormat := ⟨-4, 15, 2⟩

def ofFloat (x : Float) : Text :=
  let bits := x.toBits.toNat
  if x.isNaN then "nan".toList
  else
    let sign := if bits / Nat.pow 2 63 = 1 then ['-'] else []
    if x.isInf then sign ++ "inf".toList
    else if bits % Nat.pow 2 63 = 0 then sign ++ "0.0".toList
    else
      let (digits, power) := (Magnitude.ofBits bits).shortest
      let numeral := ofNat digits
      sign ++ plainDecimal.write (dropZeros numeral) (power + numeral.length - 1)

end StaticSite.Text
