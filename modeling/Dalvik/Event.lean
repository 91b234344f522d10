import Dalvik.Error.Basic

/-! The journal: what is reported about the work besides its results, in the order in which it
happens. -/
namespace Dalvik

inductive Level where
  | trace | debug
  deriving DecidableEq

inductive Event where
  | interned (type : Ty)
  /-- An instruction went into a block; the target is the label that it refers to. -/
  | appended (block : Label) (instruction : Instruction Local) (target : Option Label)
  | split (block next : Label)
  | assigned (registers parameters : UInt16) (method : MethodId)
  | finished (method : MethodId) (blocks pruned : Nat)
  | declaredType (type superclass : Ty)
  | declaredMethod (method : MethodId) (flags : AccessFlags)
  | declaredField (field : FieldId) (flags : AccessFlags)
  | finalized (classes : Nat)
  deriving DecidableEq

namespace Event

/-- Single types and instructions are details; a whole body or declaration is more. -/
def level : Event → Level
  | interned _ | appended .. | split .. => .trace
  | _ => .debug

def text : Event → String
  | interned type => "Interning type " ++ type.descriptor
  | appended block instruction _ => block.text ++ ": " ++ instruction.inspect Local.text
  | split block next => "Split " ++ block.text ++ ", continuing in " ++ next.text
  | assigned registers parameters method =>
    "Assigned " ++ toString registers.toNat ++ " registers (" ++ toString parameters.toNat
      ++ " for parameters) in " ++ method.text
  | finished method blocks pruned =>
    "Finished " ++ method.text ++ " with " ++ toString blocks ++ " blocks (" ++ toString pruned
      ++ " labels pruned)"
  | declaredType type superclass =>
    "Declared type " ++ type.descriptor ++ " extending " ++ superclass.descriptor
  | declaredMethod method flags => "Declared method " ++ method.text ++ " (" ++ flags.text ++ ")"
  | declaredField field flags => "Declared field " ++ field.text ++ " (" ++ flags.text ++ ")"
  | finalized classes => "Finalized " ++ toString classes ++ " classes"

end Event

end Dalvik
