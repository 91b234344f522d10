/-! Binary floating-point numbers as the bits that store them. `BinaryFormat.read` gives a number
as `mantissa * 2 ^ exponent` over the integers, so that nothing later rounds. -/
namespace Dalvik.Decimal

structure BinaryFormat where
  exponentBits : Nat
  fractionBits : Nat
  deriving DecidableEq

def single : BinaryFormat := ⟨8, 23⟩
def double : BinaryFormat := ⟨11, 52⟩

/-- A positive number `mantissa * 2 ^ exponent`. It is `narrow` when the next smaller number is
only half as far away as the next larger one: the number is then a power of two. -/
structure Magnitude where
  mantissa : Nat
  exponent : Int
  narrow : Bool
  deriving DecidableEq

inductive Reading where
  | nan
  | infinite (negative : Bool)
  | zero (negative : Bool)
  | finite (negative : Bool) (magnitude : Magnitude)
  deriving DecidableEq

namespace BinaryFormat

/-- The exponent field that marks infinities and NaNs. -/
def topExponent (format : BinaryFormat) : Nat := Nat.pow 2 format.exponentBits - 1

/-- Exponent of the least positive number. -/
def leastExponent (format : BinaryFormat) : Int :=
  2 - Nat.pow 2 (format.exponentBits - 1) - format.fractionBits

def read (format : BinaryFormat) (bits : Nat) : Reading :=
  let fraction := bits % Nat.pow 2 format.fractionBits
  let exponent := bits / Nat.pow 2 format.fractionBits % Nat.pow 2 format.exponentBits
  let negative := bits / Nat.pow 2 (format.fractionBits + format.exponentBits) % 2 == 1
  if exponent = format.topExponent then
    if fraction = 0 then .infinite negative else .nan
  else if exponent = 0 then
    if fraction = 0 then .zero negative
    else .finite negative ⟨fraction, format.leastExponent, false⟩
  else
    .finite negative
      ⟨Nat.pow 2 format.fractionBits + fraction, format.leastExponent + (exponent - 1 : Nat),
        fraction == 0 && exponent != 1⟩

/-- Numeric equality: a NaN equals nothing and the two zeros are equal. -/
def equal (format : BinaryFormat) (a b : Nat) : Bool :=
  match format.read a, format.read b with
  | .nan, _ => false
  | _, .nan => false
  | .zero _, .zero _ => true
  | _, _ => a == b

end BinaryFormat
end Dalvik.Decimal
