import Dalvik.Instruction.Printer

/-! Finished method bodies: basic blocks over registers, and their listing. -/
namespace Dalvik

/-- Where an exception of the given type is handled. -/
structure Handler where
  exception : Ty
  block : Nat
  deriving DecidableEq

/-- A run of instructions entered only at its start and left only at its end. Control goes on to
`primary`, to `alternate` if the branch at the end is taken, or to a handler. -/
structure BasicBlock where
  id : Nat
  instructions : List (Instruction Register)
  primary : Option Nat
  alternate : Option Nat
  handlers : List Handler
  deriving DecidableEq

structure MethodBody where
  blocks : List BasicBlock
  registers : UInt16
  parameterRegisters : UInt16
  deriving DecidableEq

namespace BasicBlock

def successors (b : BasicBlock) : List Nat :=
  b.primary.toList ++ b.alternate.toList ++ b.handlers.map Handler.block

def last? (b : BasicBlock) : Option (Instruction Register) := b.instructions.getLast?

/-- A taken branch is listed next to the block that follows. -/
def exitLines (b : BasicBlock) : List String :=
  match b.primary with
  | none => []
  | some next =>
    ["  next: " ++ toString next ++
      match b.alternate with
      | none => ""
      | some taken => ", taken: " ++ toString taken]

def lines (b : BasicBlock) : List String :=
  ("block " ++ toString b.id ++ ":")
    :: b.instructions.map (fun i => "    " ++ i.listing Register.name)
    ++ b.exitLines
    ++ b.handlers.map fun h =>
      "  catch " ++ h.exception.descriptor ++ ": " ++ toString h.block

end BasicBlock

def MethodBody.lines (body : MethodBody) : List String :=
  ("registers: " ++ toString body.registers.toNat ++ " (parameters: "
      ++ toString body.parameterRegisters.toNat ++ ")")
    :: body.blocks.flatMap BasicBlock.lines

/-- Every line ends with a line feed. -/
def MethodBody.listing (body : MethodBody) : String :=
  String.join (body.lines.map (· ++ "\n"))

end Dalvik
