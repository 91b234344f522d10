import Dalvik.Error.Basic

/-! Identities of members from what a caller gives. Members belong to reference types, and their
types are types of values. -/
namespace Dalvik

/-- The owner is checked first, then the types, then the name. -/
def FieldId.of (owner type : Ty) (name : String) : Except Error FieldId := do
  if !owner.isReference then throw (.notAClassType owner)
  if type.isVoid then throw (.voidNotAllowed .fieldType)
  let name ← (MemberName.of name).mapError .malformedName
  return { owner, name, type }

namespace MethodId

def checkSignature (owner : Ty) (parameters : List Ty) : Except Error Unit := do
  if !owner.isReference then throw (.notAClassType owner)
  if parameters.any Ty.isVoid then throw (.voidNotAllowed .parameterType)

def of (owner returns : Ty) (name : String) (parameters : List Ty) : Except Error MethodId := do
  checkSignature owner parameters
  let name ← (MemberName.of name).mapError .malformedName
  return { owner, name, returns, parameters }

/-- The method that sets up a new object. -/
def initializer (owner : Ty) (parameters : List Ty) : Except Error MethodId := do
  checkSignature owner parameters
  return { owner, name := .initializer, returns := .void, parameters }

/-- The method that sets up a class. -/
def classInitializer (owner : Ty) : Except Error MethodId := do
  checkSignature owner []
  return { owner, name := .classInitializer, returns := .void, parameters := [] }

end MethodId
end Dalvik
