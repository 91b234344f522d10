import Dalvik.Outcome
import Dalvik.Registry

/-! The pool of types in use. A descriptor is entered at most once, and whoever asks for it later
gets the same entry. -/
namespace Dalvik

/-- An entry of the pool. -/
structure TypeHandle where
  slot : Nat
  descriptor : String
  type : Ty
  deriving DecidableEq

/-- Handles are compared by descriptor. -/
def TypeHandle.equal (a b : TypeHandle) : Bool := a.descriptor == b.descriptor

/-- Types under their descriptors. -/
structure TypePool where
  types : Registry String Ty
  deriving DecidableEq

namespace TypePool

def empty : TypePool := ⟨Registry.empty⟩

def find? (pool : TypePool) (descriptor : String) : Option TypeHandle :=
  (pool.types.position? descriptor).bind fun slot =>
    pool.types.entries[slot]?.map fun entry => ⟨slot, entry.1, entry.2⟩

/-- The entry of a type, added if there is none yet. -/
def intern (pool : TypePool) (type : Ty) : Outcome TypePool TypeHandle :=
  let descriptor := type.descriptor
  match pool.find? descriptor with
  | some handle => .ok pool handle
  | none =>
    let handle := ⟨pool.types.size, descriptor, type⟩
    (Outcome.ok ⟨pool.types.push descriptor type⟩ handle).note (.interned type)

/-- The entry of a descriptor, which is read only if it is new. -/
def ofDescriptor (pool : TypePool) (descriptor : String) : Outcome TypePool TypeHandle :=
  match pool.find? descriptor with
  | some handle => .ok pool handle
  | none =>
    match Ty.parse descriptor with
    | .error fault => .fail pool (.malformedDescriptor descriptor fault)
    | .ok type => pool.intern type

def ofClass (pool : TypePool) (name : ClassName) : Outcome TypePool TypeHandle :=
  pool.intern (.object name)

def ofPrimitive (pool : TypePool) (p : Primitive) : Outcome TypePool TypeHandle :=
  pool.intern (.primitive p)

def void (pool : TypePool) : Outcome TypePool TypeHandle := pool.intern .void

/-- The type of arrays whose cells have the given type. -/
def arrayOf (pool : TypePool) (cell : TypeHandle) : Outcome TypePool TypeHandle :=
  match cell.type with
  | .void => .fail pool (.voidNotAllowed .arrayElement)
  | .value type => pool.intern (.value type.array)

/-- The types that most code refers to. -/
def standardTypes : List Ty :=
  [.void, .primitive .boolean, .primitive .byte, .primitive .char, .primitive .short,
   .primitive .int, .primitive .long, .primitive .float, .primitive .double,
   .object .object, .object .string, .object .throwable]

def internAll (pool : TypePool) : List Ty → Outcome TypePool (List TypeHandle)
  | [] => .ok pool []
  | type :: rest =>
    (pool.intern type).andThen fun pool handle =>
      (pool.internAll rest).map (handle :: ·)

def standard (pool : TypePool) : Outcome TypePool (List TypeHandle) :=
  pool.internAll standardTypes

end TypePool
end Dalvik
