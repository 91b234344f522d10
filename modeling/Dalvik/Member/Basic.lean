import Dalvik.Descriptor.Basic

/-! Identities of fields and methods: two members are the same when owner, name and types are. -/
namespace Dalvik

structure FieldId where
  owner : Ty
  name : MemberName
  type : Ty
  deriving DecidableEq

structure MethodId where
  owner : Ty
  name : MemberName
  /-- `void` stands for no result. An identity put together by hand that has a result, but one of type
  `void`, is left out: the functions that make identities give none. -/
  returns : Ty
  parameters : List Ty
  deriving DecidableEq

namespace FieldId

def text (f : FieldId) : String :=
  f.owner.descriptor ++ "." ++ f.name.text ++ ":" ++ f.type.descriptor

end FieldId

namespace MethodId

def isInitializer (m : MethodId) : Bool := m.name == .initializer
def isClassInitializer (m : MethodId) : Bool := m.name == .classInitializer

/-- Parameter descriptors in parentheses, then that of the result. -/
def prototypeChars (m : MethodId) : List Char :=
  '(' :: m.parameters.flatMap Ty.chars ++ ')' :: m.returns.chars

def descriptor (m : MethodId) : String := String.ofList m.prototypeChars

def text (m : MethodId) : String := m.owner.descriptor ++ "." ++ m.name.text ++ m.descriptor

/-- Registers that the arguments take. -/
def parameterWidth (m : MethodId) (hasReceiver : Bool) : Nat :=
  (if hasReceiver then 1 else 0) + Ty.totalWidth m.parameters

end MethodId

inductive Member where
  | field (f : FieldId)
  | method (m : MethodId)
  deriving DecidableEq

def Member.text : Member → String
  | field f => f.text
  | method m => m.text

end Dalvik
