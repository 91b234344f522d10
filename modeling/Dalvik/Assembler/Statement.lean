import Dalvik.Assembler.Flow
import Dalvik.Typing

/-! Statements: what a caller asks for, before it is known to make sense. `instructions` checks the
types and gives the one or two instructions that a statement stands for. -/
namespace Dalvik

/-- How a method is found, and the object it is called on. -/
inductive Call where
  | static
  | virtual (receiver : Local)
  | direct (receiver : Local)
  | super (receiver : Local)
  | interface (receiver : Local)
  deriving DecidableEq

def Call.kind : Call → InvokeKind
  | static => .static
  | virtual _ => .virtual
  | direct _ => .direct
  | super _ => .super
  | interface _ => .interface

def Call.receiver? : Call → Option Local
  | static => none
  | virtual x | direct x | super x | interface x => some x

inductive Statement where
  | move (dst src : Local)
  | const (dst : Local) (value : Constant)
  | unary (op : UnaryOp) (dst src : Local)
  | binary (op : BinaryOp) (dst a b : Local)
  | numericCast (dst src : Local)
  | typeCast (dst src : Local)
  /-- A numeric or a type cast, whichever the operands admit. -/
  | cast (dst src : Local)
  | compareLongs (dst a b : Local)
  | compareFloats (bias : NanBias) (dst a b : Local)
  | instanceGet (field : FieldId) (dst object : Local)
  | instancePut (field : FieldId) (object src : Local)
  | staticGet (field : FieldId) (dst : Local)
  | staticPut (field : FieldId) (src : Local)
  /-- Allocates an object and calls its initializer. -/
  | newInstance (dst : Local) (method : MethodId) (args : List Local)
  /-- The result of a method without one is not stored. -/
  | invoke (call : Call) (method : MethodId) (result : Option Local) (args : List Local)
  | instanceOf (dst src : Local) (type : Ty)
  | arrayLength (dst array : Local)
  | newArray (dst length : Local)
  | arrayGet (dst array index : Local)
  | arrayPut (array index src : Local)
  | monitorEnter (object : Local)
  | monitorExit (object : Local)
  | raise (value : Local)
  | returnVoid
  | returnValue (value : Local)
  deriving DecidableEq

namespace Statement

open Typing

def isInt (p : Primitive) : Bool := p == .int
def isLong (p : Primitive) : Bool := p == .long
def isBoolean (p : Primitive) : Bool := p == .boolean
def isFloating (p : Primitive) : Bool := p == .float || p == .double

def checkNumericCast (dst src : Local) : Except Error (List (Instruction Local)) := do
  primitive .numericCast (fun _ => true) dst.type
  primitive .numericCast (fun _ => true) src.type
  return [.numericCast dst src]

def checkTypeCast (dst src : Local) : Except Error (List (Instruction Local)) := do
  reference .typeCast dst.type
  reference .typeCast src.type
  return [.checkCast dst src dst.type]

/-- The variable that takes the result of a call, if there is both. -/
def checkResult (method : MethodId) : Option Local → Except Error (List (Instruction Local))
  | none => return []
  | some x => do
    if method.returns.isVoid then return []
    assignable .returnValue x.type method.returns
    return [.moveResult x]

/-- The instructions of a statement in the body of `method`. -/
def instructions (method : MethodId) : Statement → Except Error (List (Instruction Local))
  | move dst src => do
    same .move dst.type src.type
    return [.move dst src]
  | const dst value => do
    require (value.fits dst.type) (.typeMismatch .constant (.type dst.type) (.constant value))
    return [.const dst value]
  | unary op dst src => do
    same .unaryOperand dst.type src.type
    primitive .unaryOperand op.accepts src.type
    return [.unary op dst src]
  | binary op dst a b => do
    same .binaryOperand dst.type a.type
    if op.isShift then primitive .shiftAmount isInt b.type
    else same .binaryOperand a.type b.type
    primitive .binaryOperand op.accepts a.type
    return [.binary op dst a b]
  | numericCast dst src => checkNumericCast dst src
  | typeCast dst src => checkTypeCast dst src
  | cast dst src =>
    if dst.type.isPrimitive && src.type.isPrimitive then checkNumericCast dst src
    else if dst.type.isReference && src.type.isReference then checkTypeCast dst src
    else .error (mismatch .cast (.type dst.type) src.type)
  | compareLongs dst a b => do
    primitive .comparisonResult isInt dst.type
    primitive .longComparison isLong a.type
    same .longComparison a.type b.type
    return [.compareLongs dst a b]
  | compareFloats bias dst a b => do
    primitive .comparisonResult isInt dst.type
    primitive .floatComparison isFloating a.type
    same .floatComparison a.type b.type
    return [.compareFloats bias dst a b]
  | instanceGet field dst object => do
    assignable .fieldValue dst.type field.type
    assignable .fieldOwner field.owner object.type
    return [.instanceGet field dst object]
  | instancePut field object src => do
    assignable .fieldValue field.type src.type
    assignable .fieldOwner field.owner object.type
    return [.instancePut field object src]
  | staticGet field dst => do
    assignable .fieldValue dst.type field.type
    return [.staticGet field dst]
  | staticPut field src => do
    assignable .fieldValue field.type src.type
    return [.staticPut field src]
  | newInstance dst target args => do
    require target.isInitializer (.typeMismatch .constructor .initializer (.method target))
    assignable .newInstance dst.type target.owner
    arguments target none args
    return [.newInstance dst target.owner, .invoke .direct target (dst :: args)]
  | invoke call target result args => do
    arguments target call.receiver? args
    let stored ← checkResult target result
    return .invoke call.kind target (call.receiver?.toList ++ args) :: stored
  | instanceOf dst src type => do
    primitive .instanceOfResult isBoolean dst.type
    reference .instanceOfOperand src.type
    reference .instanceOfType type
    return [.instanceOf dst src type]
  | arrayLength dst array => do
    primitive .arrayLength isInt dst.type
    Typing.array array.type
    return [.arrayLength dst array]
  | newArray dst length => do
    Typing.array dst.type
    primitive .arrayLength isInt length.type
    return [.newArray dst length]
  | arrayGet dst array index => do
    element array.type dst.type
    primitive .arrayIndex isInt index.type
    return [.arrayGet dst array index]
  | arrayPut array index src => do
    element array.type src.type
    primitive .arrayIndex isInt index.type
    return [.arrayPut array index src]
  | monitorEnter object => do
    reference .monitor object.type
    return [.monitorEnter object]
  | monitorExit object => do
    reference .monitor object.type
    return [.monitorExit object]
  | raise value => do
    reference .thrownValue value.type
    return [.raise value]
  | returnVoid => do
    require method.returns.isVoid (mismatch .returned (.type method.returns) .void)
    return [.returnVoid]
  | returnValue value => do
    require (!method.returns.isVoid) (mismatch .returned (.type .void) value.type)
    same .returned method.returns value.type
    return [.returnValue value]

end Statement

namespace Assembler

def emit (a : Assembler) (statement : Statement) : Outcome Assembler Unit :=
  match statement.instructions a.method with
  | .error e => .fail a e
  | .ok instructions => a.appendAll instructions

/-- Goes to `target` if the comparison holds, else on in a new block. Without a second operand the
first is compared with zero or null. -/
def branch (a : Assembler) (comparison : Comparison) (target : Label) (x : Local)
    (y : Option Local) : Outcome Assembler Unit :=
  let checked : Except Error Unit := do
    if let some y := y then Typing.same .comparison x.type y.type
    Typing.branchOperand comparison x.type
  match checked with
  | .error e => .fail a e
  | .ok () => a.appendTo target (.branch comparison x y)

end Assembler
end Dalvik
