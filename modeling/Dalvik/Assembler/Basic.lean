import Dalvik.Outcome

/-! A method body in the making. Code goes into the current block from top to bottom; blocks are
named by labels, variables are created before the first instruction. -/
namespace Dalvik

structure CatchClause where
  exception : Ty
  handler : Label
  deriving DecidableEq

/-- A block in the making. It is `adopted` once the body refers to its label and `marked` once
code may go into it. -/
structure DraftBlock where
  adopted : Bool := false
  marked : Bool := false
  instructions : Array (Instruction Local) := #[]
  primary : Option Label := none
  alternate : Option Label := none
  handlers : List CatchClause := []
  deriving DecidableEq

/-- Labels that control can go on to. -/
def DraftBlock.successors (b : DraftBlock) : List Label :=
  b.primary.toList ++ b.alternate.toList ++ b.handlers.map CatchClause.handler

def DraftBlock.isEmpty (b : DraftBlock) : Bool := b.instructions.isEmpty

/-- Where the variables of a body are kept: a register for each, by index, and the size of the
frame, of which the arguments take the end. -/
structure Frame where
  numbers : Array UInt16
  size : UInt16
  parameterSize : UInt16
  deriving DecidableEq

structure Assembler where
  body : BodyId
  method : MethodId
  isStatic : Bool
  /-- By label index. -/
  blocks : Array DraftBlock
  /-- Adopted labels, in the order of their first use. -/
  order : Array Label
  /-- The block that takes the next instruction. -/
  current : Option Label
  receiver : Option Local
  /-- Incoming arguments, the receiver first. -/
  parameters : Array Local
  /-- All other variables. -/
  locals : Array Local
  /-- Index of the next variable. Unbounded as that index is: bodies with `2 ^ 32` variables are left
  out. -/
  nextLocal : Nat
  /-- Active clauses, the innermost first. -/
  catches : List CatchClause
  /-- An instruction was appended. -/
  emitted : Bool
  frame : Option Frame
  deriving DecidableEq

namespace Assembler

/-- The arguments of a method as variables: the receiver, if any, then the parameters. -/
def argumentTypes (method : MethodId) (isStatic : Bool) : List Ty :=
  (if isStatic then [] else [method.owner]) ++ method.parameters

/-- An empty body, its entry block open. -/
def start (body : BodyId) (method : MethodId) (isStatic : Bool) : Assembler :=
  let types := (argumentTypes method isStatic).toArray
  let parameters := types.mapIdx fun index type => ⟨body, index, type⟩
  { body, method, isStatic
    blocks := #[{ adopted := true, marked := true }]
    order := #[⟨body, 0⟩]
    current := some ⟨body, 0⟩
    receiver := if isStatic then none else parameters[0]?
    parameters
    locals := #[]
    nextLocal := types.size
    catches := []
    emitted := false
    frame := none }

/-- Whether nothing was emitted yet. -/
def isEmpty (a : Assembler) : Bool := !a.emitted

/-- Registers that the incoming arguments take. -/
def parameterWidth (a : Assembler) : Nat := Ty.totalWidth (a.parameters.toList.map Local.type)

def block (a : Assembler) (l : Label) : DraftBlock := a.blocks.getD l.index {}

def editBlock (a : Assembler) (l : Label) (f : DraftBlock → DraftBlock) : Assembler :=
  { a with blocks := a.blocks.modify l.index f }

/-- The label that the next new block gets. -/
def freshLabel (a : Assembler) : Label := ⟨a.body, a.blocks.size⟩

def newLabel (a : Assembler) : Outcome Assembler Label :=
  let label := a.freshLabel
  .ok { a with blocks := a.blocks.push {} } label

/-- Variables are created before anything is emitted, since the frame has to hold them all. -/
def newLocal (a : Assembler) (type : Ty) : Outcome Assembler Local :=
  if a.emitted || a.frame.isSome then .fail a .localAfterInstructions
  else if type.isVoid then .fail a (.voidNotAllowed .localType)
  else
    let x : Local := ⟨a.body, a.nextLocal, type⟩
    .ok { a with locals := a.locals.push x, nextLocal := a.nextLocal + 1 } x

/-- Checks the type by which the caller asks for an argument. -/
def asked (role : Role) (type : Ty) (x : Local) : Except Error Local :=
  if type == x.type then .ok x
  else .error (.typeMismatch role (.type type) (.type x.type))

/-- The variable of a parameter; the receiver does not count. -/
def askParameter (a : Assembler) (index : Nat) (type : Ty) : Except Error Local :=
  let count := a.method.parameters.length
  let found := if index < count then a.parameters[index + if a.isStatic then 0 else 1]? else none
  match found with
  | none => .error (.parameterOutOfBounds index count)
  | some x => asked .parameter type x

def askReceiver (a : Assembler) (type : Ty) : Except Error Local :=
  match a.receiver with
  | none => .error (.noReceiver a.method)
  | some x => asked .thisType type x

end Assembler
end Dalvik
