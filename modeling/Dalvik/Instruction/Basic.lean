import Dalvik.Constant
import Dalvik.Handle
import Dalvik.Member.Basic
import Dalvik.Operator

/-! Instructions over any kind of operand: variables while a body is put together, registers once
it is finished. There is one instruction per kind of operation, and the types of its operands say
which machine code it stands for. -/
namespace Dalvik

inductive Instruction (R : Type) where
  | moveParameter (dst : R) (index : UInt16)
  | move (dst src : R)
  | const (dst : R) (value : Constant)
  | unary (op : UnaryOp) (dst src : R)
  | binary (op : BinaryOp) (dst a b : R)
  | numericCast (dst src : R)
  | checkCast (dst src : R) (type : Ty)
  | instanceOf (dst src : R) (type : Ty)
  | compareLongs (dst a b : R)
  | compareFloats (bias : NanBias) (dst a b : R)
  | instanceGet (field : FieldId) (dst object : R)
  | instancePut (field : FieldId) (object src : R)
  | staticGet (field : FieldId) (dst : R)
  | staticPut (field : FieldId) (src : R)
  | newInstance (dst : R) (type : Ty)
  | invoke (kind : InvokeKind) (method : MethodId) (args : List R)
  | moveResult (dst : R)
  | newArray (dst length : R)
  | arrayLength (dst array : R)
  | arrayGet (dst array index : R)
  | arrayPut (array index src : R)
  | monitorEnter (object : R)
  | monitorExit (object : R)
  | goto
  | branch (comparison : Comparison) (a : R) (b : Option R)
  | returnVoid
  | returnValue (value : R)
  | raise (value : R)
  deriving DecidableEq

/-- How control goes on after an instruction. -/
inductive Flow where
  /-- On to the next instruction. -/
  | next
  /-- To a given block. -/
  | goto
  /-- To a given block, or on to the next instruction. -/
  | branch
  /-- Back to the caller. -/
  | leave
  /-- To a handler of the exception. -/
  | raise
  deriving DecidableEq

namespace Instruction

def flow : Instruction R → Flow
  | goto => .goto
  | branch .. => .branch
  | returnVoid | returnValue _ => .leave
  | raise _ => .raise
  | _ => .next

/-- All operands, in the order in which they are checked and replaced. -/
def operands : Instruction R → List R
  | moveParameter dst _ => [dst]
  | move dst src => [dst, src]
  | const dst _ => [dst]
  | unary _ dst src => [dst, src]
  | binary _ dst a b => [dst, a, b]
  | numericCast dst src => [dst, src]
  | checkCast dst src _ => [dst, src]
  | instanceOf dst src _ => [dst, src]
  | compareLongs dst a b => [dst, a, b]
  | compareFloats _ dst a b => [dst, a, b]
  | instanceGet _ dst object => [dst, object]
  | instancePut _ object src => [object, src]
  | staticGet _ dst => [dst]
  | staticPut _ src => [src]
  | newInstance dst _ => [dst]
  | invoke _ _ args => args
  | moveResult dst => [dst]
  | newArray dst length => [dst, length]
  | arrayLength dst array => [dst, array]
  | arrayGet dst array index => [dst, array, index]
  | arrayPut array index src => [array, index, src]
  | monitorEnter object => [object]
  | monitorExit object => [object]
  | goto => []
  | branch _ a none => [a]
  | branch _ a (some b) => [a, b]
  | returnVoid => []
  | returnValue value => [value]
  | raise value => [value]

/-- Replaces every operand, or stops at the first one that `f` refuses. -/
def traverse (f : R → Except ε S) : Instruction R → Except ε (Instruction S)
  | moveParameter dst index => return moveParameter (← f dst) index
  | move dst src => return move (← f dst) (← f src)
  | const dst value => return const (← f dst) value
  | unary op dst src => return unary op (← f dst) (← f src)
  | binary op dst a b => return binary op (← f dst) (← f a) (← f b)
  | numericCast dst src => return numericCast (← f dst) (← f src)
  | checkCast dst src type => return checkCast (← f dst) (← f src) type
  | instanceOf dst src type => return instanceOf (← f dst) (← f src) type
  | compareLongs dst a b => return compareLongs (← f dst) (← f a) (← f b)
  | compareFloats bias dst a b => return compareFloats bias (← f dst) (← f a) (← f b)
  | instanceGet field dst object => return instanceGet field (← f dst) (← f object)
  | instancePut field object src => return instancePut field (← f object) (← f src)
  | staticGet field dst => return staticGet field (← f dst)
  | staticPut field src => return staticPut field (← f src)
  | newInstance dst type => return newInstance (← f dst) type
  | invoke kind method args => return invoke kind method (← args.mapM f)
  | moveResult dst => return moveResult (← f dst)
  | newArray dst length => return newArray (← f dst) (← f length)
  | arrayLength dst array => return arrayLength (← f dst) (← f array)
  | arrayGet dst array index => return arrayGet (← f dst) (← f array) (← f index)
  | arrayPut array index src => return arrayPut (← f array) (← f index) (← f src)
  | monitorEnter object => return monitorEnter (← f object)
  | monitorExit object => return monitorExit (← f object)
  | goto => return goto
  | branch comparison a none => return branch comparison (← f a) none
  | branch comparison a (some b) => return branch comparison (← f a) (some (← f b))
  | returnVoid => return returnVoid
  | returnValue value => return returnValue (← f value)
  | raise value => return raise (← f value)

/-- Whether the instruction can end in an exception. Of the operators only the integer divisions
can, on a zero divisor. -/
def canThrow [Typed R] : Instruction R → Bool
  | const _ value => value.canThrow
  | binary op _ _ b => op.isDivision && ((Typed.type b).primitive?.any Primitive.isIntegral)
  | checkCast .. | instanceOf .. | instanceGet .. | instancePut .. | staticGet ..
  | staticPut .. | newInstance .. | invoke .. | newArray .. | arrayLength .. | arrayGet ..
  | arrayPut .. | monitorEnter _ | monitorExit _ | raise _ => true
  | _ => false

end Instruction
end Dalvik
