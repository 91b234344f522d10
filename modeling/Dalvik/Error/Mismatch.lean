import Dalvik.Constant
import Dalvik.Member.Basic

/-! Why a value does not fit: the place it was meant for, what that place admits, and what was
given. -/
namespace Dalvik

/-- The place in an operation that a value was meant for. -/
inductive Role where
  | move | constant | unaryOperand | binaryOperand | shiftAmount | numericCast | typeCast | cast
  | comparison | referenceComparison | comparisonResult | longComparison | floatComparison
  | fieldValue | fieldOwner | constructor | newInstance | receiver | argument | returnValue
  | instanceOfResult | instanceOfOperand | instanceOfType | array | arrayLength | arrayElement
  | arrayIndex | monitor | thrownValue | returned | parameter | thisType | exceptionType
  | initialValue
  deriving DecidableEq

def Role.text : Role → String
  | move => "move"
  | constant => "constant"
  | unaryOperand => "unary operand"
  | binaryOperand => "binary operand"
  | shiftAmount => "shift amount"
  | numericCast => "numeric cast"
  | typeCast => "type cast"
  | cast => "cast"
  | comparison => "comparison"
  | referenceComparison => "reference comparison"
  | comparisonResult => "comparison result"
  | longComparison => "long comparison"
  | floatComparison => "floating point comparison"
  | fieldValue => "field value"
  | fieldOwner => "field owner"
  | constructor => "constructor"
  | newInstance => "new instance"
  | receiver => "receiver"
  | argument => "argument"
  | returnValue => "return value"
  | instanceOfResult => "instance-of result"
  | instanceOfOperand => "instance-of operand"
  | instanceOfType => "instance-of type"
  | array => "array"
  | arrayLength => "array length"
  | arrayElement => "array element"
  | arrayIndex => "array index"
  | monitor => "monitor"
  | thrownValue => "thrown value"
  | returned => "return"
  | parameter => "parameter"
  | thisType => "this"
  | exceptionType => "exception type"
  | initialValue => "initial value"

/-- What a place admits. -/
inductive Expected where
  | type (t : Ty)
  /-- The cells of an array, known by their descriptor. -/
  | cell (descriptor : String)
  | primitive
  | reference
  | array
  | equality
  | initializer
  deriving DecidableEq

def Expected.text : Expected → String
  | type t => t.descriptor
  | cell descriptor => descriptor
  | primitive => "primitive"
  | reference => "reference"
  | array => "array"
  | equality => "eq or ne"
  | initializer => "<init>"

/-- What was given instead. -/
inductive Found where
  | type (t : Ty)
  | constant (c : Constant)
  | method (m : MethodId)
  deriving DecidableEq

def Found.text : Found → String
  | type t => t.descriptor
  | constant c => c.text
  | method m => m.text

/-- Places that need a value, and so no `void`. -/
inductive ValuePlace where
  | arrayElement | fieldType | parameterType | localType
  deriving DecidableEq

def ValuePlace.text : ValuePlace → String
  | arrayElement => "array element"
  | fieldType => "field type"
  | parameterType => "parameter type"
  | localType => "local type"

end Dalvik
