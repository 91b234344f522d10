import Dalvik.Assembler.Finish
import Dalvik.Assembler.Statement

/-! The calls on a body as data, so that the history of a body is a list. -/
namespace Dalvik

inductive Operation where
  | newLabel
  | newLocal (type : Ty)
  | parameter (index : Nat) (type : Ty)
  | receiver (type : Ty)
  | mark (label : Label)
  | jump (label : Label)
  | branch (comparison : Comparison) (target : Label) (a : Local) (b : Option Local)
  | addCatch (exception : Ty) (handler : Label)
  | removeCatch (exception : Ty)
  | emit (statement : Statement)
  | assignRegisters
  | register (x : Local)
  | finish
  deriving DecidableEq

/-- What a call gives back. -/
inductive Reply where
  | done
  | label (l : Label)
  | operand (x : Local)
  | register (r : Register)
  | body (b : MethodBody)
  deriving DecidableEq

namespace Assembler

def run (a : Assembler) : Operation → Outcome Assembler Reply
  | .newLabel => a.newLabel.map .label
  | .newLocal type => (a.newLocal type).map .operand
  | .parameter index type => .ofExcept a ((a.askParameter index type).map .operand)
  | .receiver type => .ofExcept a ((a.askReceiver type).map .operand)
  | .mark label => (a.mark label).map fun _ => .done
  | .jump label => (a.jump label).map fun _ => .done
  | .branch comparison target x y => (a.branch comparison target x y).map fun _ => .done
  | .addCatch exception handler => (a.addCatch exception handler).map fun _ => .done
  | .removeCatch exception => (a.removeCatch exception).map .label
  | .emit statement => (a.emit statement).map fun _ => .done
  | .assignRegisters => a.assignRegisters.map fun _ => .done
  | .register x => .ofExcept a ((a.register x).map .register)
  | .finish => a.finish.map .body

/-- The body after a history of calls, whether they succeeded or not. -/
def runAll (a : Assembler) (history : List Operation) : Assembler :=
  history.foldl (fun a operation => (a.run operation).state) a

end Assembler
end Dalvik
