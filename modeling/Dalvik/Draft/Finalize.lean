import Dalvik.Draft.Basic

/-! Finishing a unit: every body is finished, and members are sorted into the groups of their
class. -/
namespace Dalvik

namespace TypeEntry

def members (entry : TypeEntry) : List Member :=
  entry.fields.entries.map (.field ·.1) ++ entry.methods.entries.map (.method ·.1)

def fieldDefs (entry : TypeEntry) : List FieldDef :=
  entry.fields.entries.map fun (id, field) => ⟨id, field.flags, field.value⟩

end TypeEntry

/-- Abstract and native methods have no code, and all others have finished code. -/
def MethodEntry.define (id : MethodId) (m : MethodEntry) : Outcome Unit MethodDef :=
  if m.flags.isBodiless then
    if m.body.isEmpty then .ok () ⟨id, m.flags, none⟩
    else .fail () (.bodilessMethodWithCode id)
  else
    (m.body.finish.map fun body => ⟨id, m.flags, some body⟩).lift fun _ => ()

def TypeEntry.define (id : Ty) (entry : TypeEntry) (definition : TypeDefinition) :
    Outcome Unit ClassDef :=
  let fields := entry.fieldDefs
  (Outcome.traverse (fun (id, m) => MethodEntry.define id m) entry.methods.entries).map
    fun methods =>
      { id
        flags := definition.flags
        superclass := definition.superclass
        interfaces := definition.interfaces
        sourceFile := definition.sourceFile
        staticFields := fields.filter FieldDef.isStatic
        instanceFields := fields.filter (!·.isStatic)
        directMethods := methods.filter MethodDef.isDirect
        virtualMethods := methods.filter (!·.isDirect) }

namespace Draft

/-- Members of types that were never defined. -/
def dangling (d : Draft) : List Member :=
  (d.types.entries.filter (·.2.definition.isNone)).flatMap (·.2.members)

/-- The types that were defined. -/
def definitions (d : Draft) : List (Ty × TypeEntry × TypeDefinition) :=
  d.types.entries.filterMap fun (id, entry) => entry.definition.map (id, entry, ·)

def finalize (d : Draft) : Outcome Unit CompilationUnit :=
  let dangling := d.dangling
  if !dangling.isEmpty then .fail () (.undeclaredTypes dangling)
  else
    (Outcome.traverse (fun (id, entry, definition) => entry.define id definition)
      d.definitions).andThen fun _ classes =>
        (Outcome.ok () ⟨classes⟩).note (.finalized classes.length)

end Draft

/-- Finishes a unit and encodes it. The journal is that of the finishing. -/
def Draft.generate (d : Draft) (encoder : Encoder ε α) (embed : Error → ε) :
    Except ε α × List Event :=
  let outcome := d.finalize
  (match outcome.result with
    | .error e => .error (embed e)
    | .ok u => encoder.encode u, outcome.events)

end Dalvik
