import Dalvik.Descriptor.Basic

/-! Reading types from descriptors. A reader takes what it needs from the front of the input and
leaves the rest, also when it fails; `parse` insists that nothing is left. -/
namespace Dalvik

inductive DescriptorFault where
  | invalidPrimitive (c : Char)
  | missingPrimitive
  | noClassStart
  | missingTerminator (name : String)
  | badClassName (fault : NameFault)
  | invalidReference (c : Char)
  | missingReference
  | invalidValue (c : Char)
  | missingValue
  | leftover (c : Char)
  deriving DecidableEq

namespace DescriptorFault

def message : DescriptorFault → String
  | invalidPrimitive c => "Invalid base type character '" ++ c.toString ++ "'"
  | missingPrimitive => "Missing base type character"
  | noClassStart => "Expected object type to start with `L`"
  | missingTerminator name => "Missing terminator for 'L" ++ name ++ "'"
  | badClassName fault => fault.message
  | invalidReference c => "Invalid reference type character '" ++ c.toString ++ "'"
  | missingReference => "Missing reference type"
  | invalidValue c => "Invalid field type character '" ++ c.toString ++ "'"
  | missingValue => "Missing field type"
  | leftover c => "Unexpected leftover input '" ++ c.toString ++ "'"

/-- The input ended where more was needed. -/
def isTruncation : DescriptorFault → Bool
  | missingPrimitive | missingTerminator _ | missingReference | missingValue => true
  | _ => false

end DescriptorFault

/-- What was read, and the input that is left. -/
abbrev Reader (α : Type) := List Char → Except DescriptorFault α × List Char

def Reader.map (f : α → β) (read : Reader α) : Reader β := fun input =>
  let (result, rest) := read input
  (result.map f, rest)

/-- Reads the whole of a text. -/
def Reader.parse (read : Reader α) (text : String) : Except DescriptorFault α :=
  match read text.toList with
  | (.error fault, _) => .error fault
  | (.ok _, c :: _) => .error (.leftover c)
  | (.ok a, []) => .ok a

def Primitive.read : Reader Primitive
  | [] => (.error .missingPrimitive, [])
  | c :: rest =>
    match Primitive.ofCode? c with
    | some p => (.ok p, rest)
    | none => (.error (.invalidPrimitive c), rest)

def insideName (c : Char) : Bool := c != ';'

/-- The name ends at the first semicolon, whatever stands before it. -/
def ClassName.read : Reader ClassName
  | [] => (.error .noClassStart, [])
  | c :: rest =>
    if c ≠ 'L' then (.error .noClassStart, rest)
    else
      let name := String.ofList (rest.takeWhile insideName)
      match rest.dropWhile insideName with
      | [] => (.error (.missingTerminator name), [])
      | _ :: rest => ((ClassName.of name).mapError .badClassName, rest)

def Element.read (input : List Char) : Except DescriptorFault Element × List Char :=
  if input.head? = some 'L' then ClassName.read.map .object input
  else Primitive.read.map .primitive input

def isBracket (c : Char) : Bool := c == '['

def RefType.read (input : List Char) : Except DescriptorFault RefType × List Char :=
  match input with
  | [] => (.error .missingReference, [])
  | 'L' :: _ => ClassName.read.map .object input
  | '[' :: rest =>
    let additional := (rest.takeWhile isBracket).length
    Reader.map (.array additional) Element.read (rest.dropWhile isBracket)
  | c :: _ => (.error (.invalidReference c), input)

def ValueType.read (input : List Char) : Except DescriptorFault ValueType × List Char :=
  match input with
  | [] => (.error .missingValue, [])
  | c :: _ =>
    if c = 'L' || c = '[' then Reader.map .reference RefType.read input
    else if (Primitive.ofCode? c).isSome then Primitive.read.map .primitive input
    else (.error (.invalidValue c), input)

def Ty.read (input : List Char) : Except DescriptorFault Ty × List Char :=
  match input with
  | 'V' :: rest => (.ok .void, rest)
  | _ => Reader.map .value ValueType.read input

def Ty.parse (descriptor : String) : Except DescriptorFault Ty := Reader.parse Ty.read descriptor

end Dalvik
