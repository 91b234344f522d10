import Dalvik.Descriptor.Basic

/-! Handles given out while a method body is put together. Each names the body it belongs to, so
that a handle used with the wrong body is noticed. -/
namespace Dalvik

/-- Tells bodies apart; no two bodies in use have the same. -/
structure BodyId where
  number : Nat
  deriving DecidableEq

/-- Names a block of a body. -/
structure Label where
  body : BodyId
  /-- Unbounded: bodies with `2 ^ 32` labels, for which 32 bits would not be enough, are left out. -/
  index : Nat
  deriving DecidableEq

def Label.text (l : Label) : String := "l" ++ toString l.index

/-- A variable of a body. -/
structure Local where
  body : BodyId
  /-- Unbounded as well: bodies with `2 ^ 32` variables are left out. -/
  index : Nat
  type : Ty
  deriving DecidableEq

def Local.text (x : Local) : String := "local" ++ toString x.index ++ ":" ++ x.type.descriptor
def Local.width (x : Local) : Nat := x.type.width

/-- A place in the frame, with the type of what it holds. -/
structure Register where
  number : UInt16
  type : Ty
  deriving DecidableEq

def Register.name (r : Register) : String := "v" ++ toString r.number.toNat
def Register.text (r : Register) : String := r.name ++ ":" ++ r.type.descriptor

/-- Operands that know the type of what they hold. -/
class Typed (R : Type) where
  type : R → Ty

instance : Typed Local := ⟨Local.type⟩
instance : Typed Register := ⟨Register.type⟩

end Dalvik
