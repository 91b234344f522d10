import Dalvik.Decimal.Shortest

/-! Binary numbers in decimal. A `Style` holds the choices in which two ways of writing the same
number differ. -/
namespace Dalvik.Decimal

structure Style where
  /-- Always write a fractional digit in positional notation. -/
  keepFraction : Bool
  /-- Leading exponents from `fst` up to, not including, `snd` are written positionally. -/
  positional : Option (Int × Int)

/-- Significant digits without trailing zeros, and the power of ten of the first of them. -/
structure Scientific where
  digits : List Char
  exponent : Int

def Numeral.scientific (x : Numeral) : Scientific :=
  let digits := Nat.toDigits 10 x.significand
  { digits := (digits.reverse.dropWhile (· == '0')).reverse
    exponent := x.exponent + (digits.length - 1 : Nat) }

def zeros (count : Nat) : List Char := List.replicate count '0'

def Scientific.positional (x : Scientific) (keepFraction : Bool) : List Char :=
  if x.exponent < 0 then ['0', '.'] ++ zeros (-x.exponent - 1).toNat ++ x.digits
  else
    let whole := x.exponent.toNat + 1
    let fraction := x.digits.drop whole
    let written := x.digits.take whole ++ zeros (whole - x.digits.length)
    if fraction.isEmpty then written ++ (if keepFraction then ['.', '0'] else [])
    else written ++ '.' :: fraction

def Scientific.exponential (x : Scientific) : List Char :=
  let digits := match x.digits with
    | first :: second :: rest => first :: '.' :: second :: rest
    | short => short
  digits ++ 'e' :: (toString x.exponent).toList

def Style.usesExponent (style : Style) (exponent : Int) : Bool :=
  match style.positional with
  | none => false
  | some (least, limit) => exponent < least || limit ≤ exponent

def Style.magnitude (style : Style) (x : Magnitude) : List Char :=
  let number := x.shortest.scientific
  if style.usesExponent number.exponent then number.exponential
  else number.positional style.keepFraction

def signed (negative : Bool) (text : List Char) : List Char :=
  if negative then '-' :: text else text

/-- A NaN is written without a sign. -/
def Style.write (style : Style) : Reading → String
  | .nan => "NaN"
  | .infinite negative => String.ofList (signed negative ['i', 'n', 'f'])
  | .zero negative =>
    String.ofList (signed negative ('0' :: if style.keepFraction then ['.', '0'] else []))
  | .finite negative x => String.ofList (signed negative (style.magnitude x))

end Dalvik.Decimal
