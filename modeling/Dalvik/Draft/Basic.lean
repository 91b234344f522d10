import Dalvik.Assembler.Operation
import Dalvik.CompilationUnit
import Dalvik.Registry

/-! A unit in the making. Types, fields and methods are declared in any order, members before or
after the type they belong to; types keep the order in which they were first mentioned. -/
namespace Dalvik

structure TypeDefinition where
  flags : AccessFlags
  superclass : Ty
  interfaces : List Ty
  sourceFile : Option String
  deriving DecidableEq

structure FieldEntry where
  flags : AccessFlags
  value : Option Constant
  deriving DecidableEq

structure MethodEntry where
  flags : AccessFlags
  body : Assembler
  deriving DecidableEq

/-- What is declared of one type. Without a definition only members were. -/
structure TypeEntry where
  definition : Option TypeDefinition := none
  fields : Registry FieldId FieldEntry := {}
  methods : Registry MethodId MethodEntry := {}
  deriving DecidableEq

structure Draft where
  types : Registry Ty TypeEntry := {}
  deriving DecidableEq

namespace Draft

def empty : Draft := {}

def entry (d : Draft) (type : Ty) : TypeEntry := (d.types.find? type).getD {}

def putEntry (d : Draft) (type : Ty) (entry : TypeEntry) : Draft := ⟨d.types.put type entry⟩

/-- The draft with an entry for the type, if need be an empty one. A declaration mentions its type
before it is known whether it is new. -/
def mention (d : Draft) (type : Ty) : Draft :=
  if d.types.contains type then d else ⟨d.types.push type {}⟩

def checkClass (type : Ty) : Except Error Unit :=
  if type.className?.isSome then .ok () else .error (.notAClassType type)

/-- Flags outside of what the declared thing may have. -/
def checkFlags (declared : Declared) (flags allowed : AccessFlags) : Except Error Unit :=
  let invalid := flags.diff allowed
  if invalid.isEmpty then .ok () else .error (.invalidAccessFlags declared invalid)

def checkType (type : Ty) (flags : AccessFlags) (superclass : Ty) (interfaces : List Ty) :
    Except Error Unit := do
  checkClass type
  checkClass superclass
  interfaces.forM checkClass
  checkFlags (.type type) flags .forClasses

def declareType (d : Draft) (type : Ty) (sourceFile : Option String) (flags : AccessFlags)
    (superclass : Ty) (interfaces : List Ty) : Outcome Draft Unit :=
  match checkType type flags superclass interfaces with
  | .error e => .fail d e
  | .ok () =>
    let d := d.mention type
    let entry := d.entry type
    if entry.definition.isSome then .fail d (.duplicateType type)
    else
      let definition := { flags, superclass, interfaces, sourceFile }
      (Outcome.ok (d.putEntry type { entry with definition := some definition }) ()).note
        (.declaredType type superclass)

/-- A synchronized method is stored as declared-synchronized. -/
def storedSynchronization (flags : AccessFlags) : AccessFlags :=
  if flags.contains .synchronized then
    (flags.diff .synchronized).union .declaredSynchronized
  else flags

/-- The flags that a method is stored with. -/
def methodFlags (method : MethodId) (requested : AccessFlags) : Except Error AccessFlags := do
  let flags := storedSynchronization requested
  checkFlags (.member (.method method)) flags .forMethods
  if method.isClassInitializer && !flags.contains .static then
    throw (.nonStaticInitializer method)
  return if method.isInitializer || method.isClassInitializer then flags.union .constructor
    else flags

/-- Declares a method and starts its body, which gets the given identity. -/
def declareMethod (d : Draft) (id : BodyId) (method : MethodId) (requested : AccessFlags) :
    Outcome Draft Assembler :=
  match methodFlags method requested with
  | .error e => .fail d e
  | .ok flags =>
    let d := d.mention method.owner
    let entry := d.entry method.owner
    if entry.methods.contains method then .fail d (.duplicateMethod method)
    else
      let body := Assembler.start id method (flags.contains .static)
      let methods := entry.methods.push method { flags, body }
      (Outcome.ok (d.putEntry method.owner { entry with methods }) body).note
        (.declaredMethod method flags)

/-- Initial values are for static fields, and of the type of the field. -/
def checkField (field : FieldId) (flags : AccessFlags) (value : Option Constant) :
    Except Error Unit := do
  if flags.contains .synchronized then throw (.synchronizedField field)
  checkFlags (.member (.field field)) flags .forFields
  if let some value := value then
    if !flags.contains .static then throw (.instanceFieldWithValue field)
    if !value.fits field.type then
      throw (.typeMismatch .initialValue (.type field.type) (.constant value))

def declareField (d : Draft) (field : FieldId) (flags : AccessFlags) (value : Option Constant) :
    Outcome Draft Unit :=
  match checkField field flags value with
  | .error e => .fail d e
  | .ok () =>
    let d := d.mention field.owner
    let entry := d.entry field.owner
    if entry.fields.contains field then .fail d (.duplicateField field)
    else
      let fields := entry.fields.push field { flags, value }
      (Outcome.ok (d.putEntry field.owner { entry with fields }) ()).note
        (.declaredField field flags)

/-- The body of a declared method. -/
def body? (d : Draft) (method : MethodId) : Option Assembler :=
  (d.types.find? method.owner).bind fun entry =>
    (entry.methods.find? method).map MethodEntry.body

/-- Replaces the body of a declared method. -/
def putBody (d : Draft) (method : MethodId) (body : Assembler) : Draft :=
  match (d.entry method.owner).methods.find? method with
  | none => d
  | some stored =>
    let entry := d.entry method.owner
    d.putEntry method.owner
      { entry with methods := entry.methods.put method { stored with body } }

/-- Work on the body of a declared method. -/
def onBody (d : Draft) (method : MethodId) (work : Assembler → Outcome Assembler α) :
    Option (Outcome Draft α) :=
  (d.body? method).map fun body => (work body).lift (d.putBody method)

end Draft
end Dalvik
