import Dalvik.Descriptor.Basic

/-! Operators of the instruction set, with the operand types they take and their two spellings:
the mnemonic of the listing and the constructor name of record notation. -/
namespace Dalvik

inductive Comparison where
  | eq | ne | lt | ge | gt | le
  deriving DecidableEq

namespace Comparison

def negate : Comparison → Comparison
  | eq => ne
  | ne => eq
  | lt => ge
  | ge => lt
  | gt => le
  | le => gt

/-- The two comparisons that references have. -/
def isEquality : Comparison → Bool
  | eq | ne => true
  | _ => false

def mnemonic : Comparison → String
  | eq => "eq"
  | ne => "ne"
  | lt => "lt"
  | ge => "ge"
  | gt => "gt"
  | le => "le"

def name : Comparison → String
  | eq => "EQ"
  | ne => "NE"
  | lt => "LT"
  | ge => "GE"
  | gt => "GT"
  | le => "LE"

end Comparison

inductive UnaryOp where
  | not | negate
  deriving DecidableEq

namespace UnaryOp

def accepts : UnaryOp → Primitive → Bool
  | _, .int | _, .long => true
  | negate, .float | negate, .double => true
  | _, _ => false

def mnemonic : UnaryOp → String
  | not => "not"
  | negate => "neg"

def name : UnaryOp → String
  | not => "Not"
  | negate => "Negate"

end UnaryOp

inductive Shift where
  | left | logicalRight | arithmeticRight
  deriving DecidableEq

inductive BinaryOp where
  | add | subtract | multiply | divide | remainder
  | and | or | xor
  | shift (direction : Shift)
  deriving DecidableEq

namespace BinaryOp

def isShift : BinaryOp → Bool
  | shift _ => true
  | _ => false

/-- Divisions throw on a zero divisor, if it is an integer. -/
def isDivision : BinaryOp → Bool
  | divide | remainder => true
  | _ => false

def isArithmetic : BinaryOp → Bool
  | add | subtract | multiply | divide | remainder => true
  | _ => false

def accepts (op : BinaryOp) : Primitive → Bool
  | .int | .long => true
  | .float | .double => op.isArithmetic
  | _ => false

def mnemonic : BinaryOp → String
  | add => "add"
  | subtract => "sub"
  | multiply => "mul"
  | divide => "div"
  | remainder => "rem"
  | and => "and"
  | or => "or"
  | xor => "xor"
  | shift .left => "shl"
  | shift .logicalRight => "ushr"
  | shift .arithmeticRight => "shr"

def name : BinaryOp → String
  | add => "Add"
  | subtract => "Subtract"
  | multiply => "Multiply"
  | divide => "Divide"
  | remainder => "Remainder"
  | and => "And"
  | or => "Or"
  | xor => "Xor"
  | shift .left => "Shift(Left)"
  | shift .logicalRight => "Shift(LogicalRight)"
  | shift .arithmeticRight => "Shift(ArithmeticRight)"

end BinaryOp

/-- What a floating-point comparison answers when an operand is NaN. -/
inductive NanBias where
  | less | greater
  deriving DecidableEq

def NanBias.mnemonic : NanBias → String
  | less => "cmpl"
  | greater => "cmpg"

def NanBias.name : NanBias → String
  | less => "L"
  | greater => "G"

inductive InvokeKind where
  | static | virtual | direct | super | interface
  deriving DecidableEq

def InvokeKind.mnemonic : InvokeKind → String
  | static => "invoke-static"
  | virtual => "invoke-virtual"
  | direct => "invoke-direct"
  | super => "invoke-super"
  | interface => "invoke-interface"

def InvokeKind.name : InvokeKind → String
  | static => "Static"
  | virtual => "Virtual"
  | direct => "Direct"
  | super => "Super"
  | interface => "Interface"

end Dalvik
