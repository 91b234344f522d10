import Dalvik.AccessFlags
import Dalvik.Body

/-! Finished units: classes with their fields and methods, ready to be encoded. -/
namespace Dalvik

structure FieldDef where
  id : FieldId
  flags : AccessFlags
  value : Option Constant
  deriving DecidableEq

def FieldDef.isStatic (f : FieldDef) : Bool := f.flags.contains .static

structure MethodDef where
  id : MethodId
  flags : AccessFlags
  body : Option MethodBody
  deriving DecidableEq

def MethodDef.isDirect (m : MethodDef) : Bool := m.flags.isDirect

structure ClassDef where
  id : Ty
  flags : AccessFlags
  superclass : Ty
  interfaces : List Ty
  sourceFile : Option String
  staticFields : List FieldDef
  instanceFields : List FieldDef
  directMethods : List MethodDef
  virtualMethods : List MethodDef
  deriving DecidableEq

def ClassDef.fields (c : ClassDef) : List FieldDef := c.staticFields ++ c.instanceFields
def ClassDef.methods (c : ClassDef) : List MethodDef := c.directMethods ++ c.virtualMethods

structure CompilationUnit where
  classes : List ClassDef
  deriving DecidableEq

def CompilationUnit.class? (u : CompilationUnit) (id : Ty) : Option ClassDef :=
  u.classes.find? (·.id == id)

/-- Turns a finished unit into a file, or whatever else it is wanted as. -/
structure Encoder (ε α : Type) where
  encode : CompilationUnit → Except ε α

end Dalvik
