import Dalvik.Decimal.Style
import Dalvik.Descriptor.Basic
import Dalvik.Text.Quoted
import Dalvik.Text.Record

/-! Constants of the instruction set. Floating-point constants are the bits that store them, so
that equal constants are the same constant. -/
namespace Dalvik

inductive Constant where
  | boolean (value : Bool)
  | byte (value : Int8)
  | short (value : Int16)
  | char (unit : UInt16)
  | int (value : Int32)
  | long (value : Int64)
  | float (bits : UInt32)
  | double (bits : UInt64)
  | string (text : String)
  | type (type : Ty)
  | null
  deriving DecidableEq

namespace Constant

/-- In listings numbers never have an exponent. -/
def listingStyle : Decimal.Style := ⟨false, none⟩

/-- In record notation numbers show that they are no integers, and leave the positional form below
`10 ^ -4` and from `10 ^ 16` on. -/
def recordStyle : Decimal.Style := ⟨true, some (-4, 16)⟩

def boolText (b : Bool) : String := if b then "true" else "false"

/-- A code unit of a character, in hexadecimal with four places. -/
def unitText (unit : UInt16) : String :=
  let digits := Text.hexDigits unit.toNat
  "0x" ++ String.ofList (List.replicate (4 - digits.length) '0' ++ digits)

/-- As an operand in a listing. -/
def text : Constant → String
  | boolean b => boolText b
  | byte n => toString n.toInt
  | short n => toString n.toInt
  | char unit => unitText unit
  | int n => toString n.toInt
  | long n => toString n.toInt ++ "L"
  | float bits => listingStyle.write (Decimal.single.read bits.toNat) ++ "f"
  | double bits => listingStyle.write (Decimal.double.read bits.toNat) ++ "d"
  | string s => Text.quoted s
  | type t => t.descriptor
  | null => "null"

/-- In record notation. -/
def inspect : Constant → String
  | boolean b => Text.tagged "Boolean" (boolText b)
  | byte n => Text.tagged "Byte" (toString n.toInt)
  | short n => Text.tagged "Short" (toString n.toInt)
  | char unit => Text.tagged "Char" (toString unit.toNat)
  | int n => Text.tagged "Int" (toString n.toInt)
  | long n => Text.tagged "Long" (toString n.toInt)
  | float bits => Text.tagged "Float" (recordStyle.write (Decimal.single.read bits.toNat))
  | double bits => Text.tagged "Double" (recordStyle.write (Decimal.double.read bits.toNat))
  | string s => Text.tagged "String" (Text.quoted s)
  | type t => Text.tagged "Type" t.descriptor
  | null => "Null"

/-- Same kind and same value; floating-point values compare as numbers. -/
def sameValue : Constant → Constant → Bool
  | float a, float b => Decimal.single.equal a.toNat b.toNat
  | double a, double b => Decimal.double.equal a.toNat b.toNat
  | a, b => a == b

/-- The primitive type of a number or boolean. -/
def primitive? : Constant → Option Primitive
  | boolean _ => some .boolean
  | byte _ => some .byte
  | short _ => some .short
  | char _ => some .char
  | int _ => some .int
  | long _ => some .long
  | float _ => some .float
  | double _ => some .double
  | _ => none

/-- Whether a variable of the type can hold the constant: numbers keep their own type, and
strings, types and null go into any reference. -/
def fits (c : Constant) (t : Ty) : Bool :=
  match c.primitive? with
  | some p => t.primitive? == some p
  | none => t.isReference

/-- Loading a string or a type resolves it first, which can fail. -/
def canThrow : Constant → Bool
  | string _ | type _ => true
  | _ => false

end Constant
end Dalvik
