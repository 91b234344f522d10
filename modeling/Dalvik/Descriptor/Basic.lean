import Dalvik.Name

/-! Types and the descriptors that write them. Every type has one descriptor, and `chars` is the
only place that spells it. -/
namespace Dalvik

inductive Primitive where
  | byte | char | double | float | int | long | short | boolean
  deriving DecidableEq

namespace Primitive

def code : Primitive → Char
  | byte => 'B'
  | char => 'C'
  | double => 'D'
  | float => 'F'
  | int => 'I'
  | long => 'J'
  | short => 'S'
  | boolean => 'Z'

def all : List Primitive := [byte, char, double, float, int, long, short, boolean]

def ofCode? (c : Char) : Option Primitive := all.find? (·.code == c)

def chars (p : Primitive) : List Char := [p.code]

/-- Registers that a value takes. -/
def width : Primitive → Nat
  | double | long => 2
  | _ => 1

def isIntegral : Primitive → Bool
  | byte | char | int | long | short => true
  | _ => false

/-- Types that a single register holds as an integer. -/
def isIntLike : Primitive → Bool
  | byte | char | int | short | boolean => true
  | _ => false

end Primitive

def ClassName.chars (name : ClassName) : List Char := 'L' :: name.text.toList ++ [';']

/-- What the innermost cells of an array hold. -/
inductive Element where
  | primitive (p : Primitive)
  | object (name : ClassName)
  deriving DecidableEq

def Element.chars : Element → List Char
  | primitive p => p.chars
  | object name => name.chars

/-- A reference type. An array has at least one dimension, and `additional` more. -/
inductive RefType where
  | object (name : ClassName)
  | array (additional : Nat) (element : Element)
  deriving DecidableEq

def RefType.chars : RefType → List Char
  | object name => name.chars
  | array additional element => List.replicate (additional + 1) '[' ++ element.chars

/-- The type of something that can be stored. -/
inductive ValueType where
  | primitive (p : Primitive)
  | reference (r : RefType)
  deriving DecidableEq

namespace ValueType

def chars : ValueType → List Char
  | primitive p => p.chars
  | reference r => r.chars

/-- Arrays with cells of this type. -/
def array : ValueType → ValueType
  | primitive p => reference (.array 0 (.primitive p))
  | reference (.object name) => reference (.array 0 (.object name))
  | reference (.array additional element) => reference (.array (additional + 1) element)

def width : ValueType → Nat
  | primitive p => p.width
  | reference _ => 1

end ValueType

inductive Ty where
  | void
  | value (type : ValueType)
  deriving DecidableEq

namespace Ty

def chars : Ty → List Char
  | void => ['V']
  | value type => type.chars

def descriptor (t : Ty) : String := String.ofList t.chars

def primitive (p : Primitive) : Ty := value (.primitive p)
def object (name : ClassName) : Ty := value (.reference (.object name))

def int : Ty := primitive .int
def long : Ty := primitive .long
/-- The class that all others extend. -/
def root : Ty := object .object
def string : Ty := object .string
def throwable : Ty := object .throwable

def isVoid : Ty → Bool
  | void => true
  | value _ => false

def primitive? : Ty → Option Primitive
  | value (.primitive p) => some p
  | _ => none

def isPrimitive (t : Ty) : Bool := t.primitive?.isSome

def isReference : Ty → Bool
  | value (.reference _) => true
  | _ => false

def isArray : Ty → Bool
  | value (.reference (.array _ _)) => true
  | _ => false

/-- The class named by the type; arrays name none. -/
def className? : Ty → Option ClassName
  | value (.reference (.object name)) => some name
  | _ => none

/-- Descriptor of the cells of an array: its own without the first bracket. -/
def elementChars? (t : Ty) : Option (List Char) :=
  if t.isArray then some t.chars.tail else none

def elementDescriptor? (t : Ty) : Option String := t.elementChars?.map String.ofList

def width : Ty → Nat
  | void => 0
  | value type => type.width

def isWide (t : Ty) : Bool := t.width == 2

/-- Registers that values of the types take together. -/
def totalWidth (types : List Ty) : Nat := types.foldr (fun type n => type.width + n) 0

end Ty

end Dalvik
