import Dalvik.Decimal.Binary

/-! The shortest decimal that reads back as a given binary number. A decimal reads back when it
lies in the interval of reals that round to the number; of the grids `10 ^ k` the coarsest one
with such a point is taken, and on it the point nearest to the number. -/
namespace Dalvik.Decimal

/-- The number `significand * 10 ^ exponent`. -/
structure Numeral where
  significand : Nat
  exponent : Int
  deriving DecidableEq

/-- Decimal digits of `n`; zero has none. -/
def digitCount (n : Nat) : Nat := if n = 0 then 0 else (Nat.toDigits 10 n).length

namespace Magnitude

/-- Power of ten of the leading decimal digit. -/
def leadingExponent (x : Magnitude) : Int :=
  let scale := Nat.pow 2 (-x.exponent).toNat
  let value := x.mantissa * Nat.pow 2 x.exponent.toNat
  if scale ≤ value then (digitCount (value / scale) : Int) - 1
  else -(digitCount ((scale - 1) / x.mantissa) : Int)

/-- The number, its rounding interval and the spacing of the grid `10 ^ k`, all multiplied by one
common factor that makes them natural numbers. -/
structure Grid where
  value : Nat
  low : Nat
  high : Nat
  unit : Nat

/-- The interval reaches halfway to both neighbours: quarters of the last place suffice. -/
def grid (x : Magnitude) (k : Int) : Grid :=
  let quarter := x.exponent - 2
  let scale := Nat.pow 2 quarter.toNat * Nat.pow 10 (-k).toNat
  { value := 4 * x.mantissa * scale
    low := (4 * x.mantissa - if x.narrow then 1 else 2) * scale
    high := (4 * x.mantissa + 2) * scale
    unit := Nat.pow 10 k.toNat * Nat.pow 2 (-quarter).toNat }

/-- A decimal at an end of the interval rounds to the even mantissa. -/
def Grid.contains (g : Grid) (closed : Bool) (point : Nat) : Bool :=
  if closed then g.low ≤ point * g.unit && point * g.unit ≤ g.high
  else g.low < point * g.unit && point * g.unit < g.high

/-- The nearer of the number's two neighbours on the grid that lie in the interval; halfway
between both, the larger. -/
def Grid.nearest? (g : Grid) (closed : Bool) : Option Nat :=
  let below := g.value / g.unit
  let above := below + 1
  match g.contains closed below, g.contains closed above with
  | false, false => none
  | true, false => some below
  | false, true => some above
  | true, true =>
    if g.value - below * g.unit < above * g.unit - g.value then some below else some above

/-- Tries grids from coarse to fine. -/
def search (x : Magnitude) (k : Int) : Nat → Option Numeral
  | 0 => none
  | fuel + 1 =>
    match (x.grid k).nearest? (x.mantissa % 2 == 0) with
    | some point => some ⟨point, k⟩
    | none => search x (k - 1) fuel

/-- Seventeen digits tell any two numbers of these formats apart, so the search ends before. -/
def shortest (x : Magnitude) : Numeral :=
  (search x x.leadingExponent 20).getD ⟨x.mantissa, x.exponent⟩

end Magnitude
end Dalvik.Decimal
