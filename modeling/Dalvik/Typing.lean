import Dalvik.Error.Basic

/-! Rules on the types of operands. There is no class hierarchy here: any reference goes where a
reference is wanted. -/
namespace Dalvik.Typing

def mismatch (role : Role) (expected : Expected) (found : Ty) : Error :=
  .typeMismatch role expected (.type found)

def require (holds : Bool) (error : Error) : Except Error Unit :=
  if holds then .ok () else .error error

def same (role : Role) (expected found : Ty) : Except Error Unit :=
  require (expected == found) (mismatch role (.type expected) found)

/-- Whether a value of type `found` can go into `slot`. -/
def fits (slot found : Ty) : Bool := slot == found || slot.isReference && found.isReference

def assignable (role : Role) (slot found : Ty) : Except Error Unit :=
  require (fits slot found) (mismatch role (.type slot) found)

def reference (role : Role) (found : Ty) : Except Error Unit :=
  require found.isReference (mismatch role .reference found)

def primitive (role : Role) (accepts : Primitive → Bool) (found : Ty) : Except Error Unit :=
  require (found.primitive?.any accepts) (mismatch role .primitive found)

def array (found : Ty) : Except Error Unit :=
  require found.isArray (mismatch .array .array found)

/-- Whether cells written `cell` are references. -/
def isReferenceCell (cell : List Char) : Bool :=
  cell.head? == some 'L' || cell.head? == some '['

/-- Whether a value of type `found` can go into, or come out of, a cell. The cell is known by its
descriptor only. -/
def fitsCell (cell : List Char) (found : Ty) : Bool :=
  isReferenceCell cell && found.isReference || cell == found.chars

def element (array found : Ty) : Except Error Unit :=
  match array.elementChars? with
  | none => .error (mismatch .array .array array)
  | some cell =>
    require (fitsCell cell found) (mismatch .arrayElement (.cell (String.ofList cell)) found)

/-- Branches compare small integers, and references for identity. -/
def branchOperand (comparison : Comparison) (found : Ty) : Except Error Unit :=
  if found.isReference then
    require comparison.isEquality (mismatch .referenceComparison .equality found)
  else primitive .comparison Primitive.isIntLike found

/-- One argument for each parameter, and a receiver that fits the owner. -/
def arguments (method : MethodId) (receiver : Option Local) (args : List Local) :
    Except Error Unit := do
  require (args.length == method.parameters.length)
    (.argumentCountMismatch method args.length)
  if let some receiver := receiver then
    assignable .receiver method.owner receiver.type
  (method.parameters.zip args).forM fun (parameter, arg) =>
    assignable .argument parameter arg.type

end Dalvik.Typing
