import Dalvik.AccessFlags
import Dalvik.Descriptor.Parser
import Dalvik.Error.Mismatch
import Dalvik.Instruction.Printer

/-! Everything that can go wrong, as causes. The wording is in `Error.message`, and `Error.kind`
sorts the causes into a few kinds. -/
namespace Dalvik

/-- What access flags are declared on. -/
inductive Declared where
  | type (t : Ty)
  | member (m : Member)
  deriving DecidableEq

def Declared.text : Declared → String
  | type t => t.descriptor
  | member m => m.text

inductive Error where
  | foreignLabel (label : Label)
  | foreignLocal (x : Local)
  | labelAlreadyMarked (label : Label)
  | noOpenBlock (instruction : Instruction Local)
  | bodyNotFinished (pending : Option Label) (unplaced : List Label)
  | typeMismatch (role : Role) (expected : Expected) (found : Found)
  | voidNotAllowed (place : ValuePlace)
  | notAClassType (type : Ty)
  | noReceiver (method : MethodId)
  | argumentCountMismatch (method : MethodId) (found : Nat)
  | parameterOutOfBounds (index count : Nat)
  | registerOverflow (index : Nat)
  | duplicateType (type : Ty)
  | duplicateMethod (method : MethodId)
  | duplicateField (field : FieldId)
  | alreadyCaught (type : Ty)
  | noCatchClause (type : Ty)
  | instanceFieldWithValue (field : FieldId)
  | synchronizedField (field : FieldId)
  | nonStaticInitializer (method : MethodId)
  | bodilessMethodWithCode (method : MethodId)
  | invalidAccessFlags (declared : Declared) (flags : AccessFlags)
  | localAfterInstructions
  | registersAlreadyAssigned
  | registersNotAssigned
  | undeclaredTypes (members : List Member)
  | malformedDescriptor (text : String) (fault : DescriptorFault)
  | malformedName (fault : NameFault)
  deriving DecidableEq

inductive ErrorKind where
  | structural | type | bounds | declaration | usageOrder | reference | malformed
  deriving DecidableEq

namespace Error

def kind : Error → ErrorKind
  | foreignLabel _ | foreignLocal _ | labelAlreadyMarked _ | noOpenBlock _
  | bodyNotFinished .. => .structural
  | typeMismatch .. | voidNotAllowed _ | notAClassType _ | noReceiver _
  | argumentCountMismatch .. => .type
  | parameterOutOfBounds .. | registerOverflow _ => .bounds
  | duplicateType _ | duplicateMethod _ | duplicateField _ | alreadyCaught _ | noCatchClause _
  | instanceFieldWithValue _ | synchronizedField _ | nonStaticInitializer _
  | bodilessMethodWithCode _ | invalidAccessFlags .. => .declaration
  | localAfterInstructions | registersAlreadyAssigned | registersNotAssigned => .usageOrder
  | undeclaredTypes _ => .reference
  | malformedDescriptor .. | malformedName _ => .malformed

def message : Error → String
  | foreignLabel label => label.text ++ " belongs to another method"
  | foreignLocal x => x.text ++ " belongs to another method"
  | labelAlreadyMarked label => label.text ++ " already marked"
  | noOpenBlock instruction =>
    "no open block for instruction " ++ instruction.inspect Local.text
  | bodyNotFinished pending unplaced =>
    "method code not finished (pending block: " ++ Text.optional (pending.map Label.text)
      ++ ", unplaced labels: " ++ Text.bracketed (unplaced.map Label.text) ++ ")"
  | typeMismatch role expected found =>
    role.text ++ ": expected " ++ expected.text ++ " but was " ++ found.text
  | voidNotAllowed place => place.text ++ " cannot be void"
  | notAClassType type => type.descriptor ++ " is not a class type"
  | noReceiver method => "static method " ++ method.text ++ " has no 'this'"
  | argumentCountMismatch method found =>
    method.text ++ " expects " ++ toString method.parameters.length ++ " arguments but got "
      ++ toString found
  | parameterOutOfBounds index count =>
    "parameter " ++ toString index ++ " out of bounds (method has " ++ toString count
      ++ " parameters)"
  | registerOverflow index => toString index ++ " registers is too many"
  | duplicateType type => "already declared: " ++ type.descriptor
  | duplicateMethod method => "already declared: " ++ method.text
  | duplicateField field => "already declared: " ++ field.text
  | alreadyCaught type => "already caught: " ++ type.descriptor
  | noCatchClause type => "not caught: " ++ type.descriptor
  | instanceFieldWithValue field =>
    "instance field " ++ field.text ++ " cannot have an initial value (only static fields can)"
  | synchronizedField field => "field " ++ field.text ++ " cannot be synchronized"
  | nonStaticInitializer method => "static initializer " ++ method.text ++ " must be static"
  | bodilessMethodWithCode method =>
    "abstract or native method " ++ method.text ++ " cannot have code"
  | invalidAccessFlags declared flags =>
    "flags " ++ flags.text ++ " are not allowed on " ++ declared.text
  | localAfterInstructions => "cannot allocate locals after adding instructions"
  | registersAlreadyAssigned => "locals already initialized"
  | registersNotAssigned => "locals not initialized yet"
  | undeclaredTypes members =>
    "members defined on undeclared types: " ++ Text.commaList (members.map Member.text)
  | malformedDescriptor text fault =>
    "malformed descriptor: '" ++ text ++ "': " ++ fault.message
  | malformedName fault => "malformed name: " ++ fault.message

end Error
end Dalvik
