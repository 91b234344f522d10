import Dalvik.Instruction.Basic

/-! The two ways to write an instruction: one line of a listing, and record notation. Both leave
the spelling of operands to the caller. -/
namespace Dalvik.Instruction

/-- A mnemonic and its operands. -/
def line (mnemonic : String) (operands : List String) : String :=
  mnemonic ++ " " ++ Text.commaList operands

/-- In a listing. The result comes first, and so does the value that a put instruction stores. -/
def listing (operand : R → String) : Instruction R → String
  | moveParameter dst index => line "move-param" [operand dst, "#" ++ toString index.toNat]
  | move dst src => line "move" [operand dst, operand src]
  | const dst value => line "const" [operand dst, value.text]
  | unary op dst src => line op.mnemonic [operand dst, operand src]
  | binary op dst a b => line op.mnemonic [operand dst, operand a, operand b]
  | numericCast dst src => line "convert" [operand dst, operand src]
  | checkCast dst src type => line "check-cast" [operand dst, operand src, type.descriptor]
  | instanceOf dst src type => line "instance-of" [operand dst, operand src, type.descriptor]
  | compareLongs dst a b => line "cmp-long" [operand dst, operand a, operand b]
  | compareFloats bias dst a b => line bias.mnemonic [operand dst, operand a, operand b]
  | instanceGet field dst object => line "iget" [operand dst, operand object, field.text]
  | instancePut field object src => line "iput" [operand src, operand object, field.text]
  | staticGet field dst => line "sget" [operand dst, field.text]
  | staticPut field src => line "sput" [operand src, field.text]
  | newInstance dst type => line "new-instance" [operand dst, type.descriptor]
  | invoke kind method args =>
    line kind.mnemonic ["\x7b" ++ Text.commaList (args.map operand) ++ "\x7d", method.text]
  | moveResult dst => line "move-result" [operand dst]
  | newArray dst length => line "new-array" [operand dst, operand length]
  | arrayLength dst array => line "array-length" [operand dst, operand array]
  | arrayGet dst array index => line "aget" [operand dst, operand array, operand index]
  | arrayPut array index src => line "aput" [operand src, operand array, operand index]
  | monitorEnter object => line "monitor-enter" [operand object]
  | monitorExit object => line "monitor-exit" [operand object]
  | goto => "goto"
  | branch comparison a none => line ("if-" ++ comparison.mnemonic ++ "z") [operand a]
  | branch comparison a (some b) => line ("if-" ++ comparison.mnemonic) [operand a, operand b]
  | returnVoid => "return-void"
  | returnValue value => line "return" [operand value]
  | raise value => line "throw" [operand value]

/-- In record notation, all fields named. -/
def inspect (operand : R → String) : Instruction R → String
  | moveParameter dst index =>
    Text.record "MoveParameter" [("dst", operand dst), ("index", toString index.toNat)]
  | move dst src => Text.record "Move" [("dst", operand dst), ("src", operand src)]
  | const dst value => Text.record "Const" [("dst", operand dst), ("value", value.inspect)]
  | unary op dst src =>
    Text.record "Unary" [("op", op.name), ("dst", operand dst), ("src", operand src)]
  | binary op dst a b =>
    Text.record "Binary" [("op", op.name), ("dst", operand dst), ("a", operand a), ("b", operand b)]
  | numericCast dst src => Text.record "NumericCast" [("dst", operand dst), ("src", operand src)]
  | checkCast dst src type =>
    Text.record "CheckCast" [("dst", operand dst), ("src", operand src), ("class", type.descriptor)]
  | instanceOf dst src type =>
    Text.record "InstanceOf" [("dst", operand dst), ("src", operand src), ("class", type.descriptor)]
  | compareLongs dst a b =>
    Text.record "CompareLongs" [("dst", operand dst), ("a", operand a), ("b", operand b)]
  | compareFloats bias dst a b =>
    Text.record "CompareFloatingPoint"
      [("mode", bias.name), ("dst", operand dst), ("a", operand a), ("b", operand b)]
  | instanceGet field dst object =>
    Text.record "InstanceGet"
      [("field", field.text), ("dst", operand dst), ("instance", operand object)]
  | instancePut field object src =>
    Text.record "InstancePut"
      [("field", field.text), ("instance", operand object), ("src", operand src)]
  | staticGet field dst => Text.record "StaticGet" [("field", field.text), ("dst", operand dst)]
  | staticPut field src => Text.record "StaticPut" [("field", field.text), ("src", operand src)]
  | newInstance dst type =>
    Text.record "NewInstance" [("dst", operand dst), ("class", type.descriptor)]
  | invoke kind method args =>
    Text.record "Invoke"
      [("invoke_type", kind.name), ("method", method.text),
       ("args", Text.bracketed (args.map operand))]
  | moveResult dst => Text.record "MoveResult" [("dst", operand dst)]
  | newArray dst length =>
    Text.record "NewArray" [("dst", operand dst), ("length", operand length)]
  | arrayLength dst array =>
    Text.record "ArrayLength" [("dst", operand dst), ("array", operand array)]
  | arrayGet dst array index =>
    Text.record "ArrayGet" [("dst", operand dst), ("array", operand array), ("index", operand index)]
  | arrayPut array index src =>
    Text.record "ArrayPut" [("array", operand array), ("index", operand index), ("src", operand src)]
  | monitorEnter object => Text.record "MonitorEnter" [("object", operand object)]
  | monitorExit object => Text.record "MonitorExit" [("object", operand object)]
  | goto => "Goto"
  | branch comparison a b =>
    Text.record "If"
      [("comparison", comparison.name), ("a", operand a), ("b", Text.optional (b.map operand))]
  | returnVoid => "ReturnVoid"
  | returnValue value => Text.record "Return" [("value", operand value)]
  | raise value => Text.record "Throw" [("value", operand value)]

end Dalvik.Instruction
