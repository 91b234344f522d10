import Dalvik.Assembler.Frame
import Dalvik.Body

/-! From a body in the making to a finished one. Labels without code disappear, the others are
numbered in the order of their first use. -/
namespace Dalvik.Assembler

/-- The open block, if there is code in it that leads nowhere. -/
def pending (a : Assembler) : Option Label := a.current.filter fun l => !(a.block l).isEmpty

/-- Labels with code, in the order of their first use. -/
def surviving (a : Assembler) : List Label :=
  a.order.toList.filter fun l => !(a.block l).isEmpty

/-- Labels that code leads to and that have none. -/
def unplaced (a : Assembler) : List Label :=
  ((a.surviving.flatMap fun l => (a.block l).successors).filter fun l =>
    (a.block l).isEmpty).eraseDups

/-- A block with its edges as block numbers and its operands as registers. -/
def finishBlock (a : Assembler) (labels : List Label) (id : Nat) (l : Label) :
    Except Error BasicBlock := do
  let b := a.block l
  let instructions ← b.instructions.toList.mapM fun i => i.traverse a.register
  return {
    id, instructions
    primary := b.primary.bind labels.idxOf?
    alternate := b.alternate.bind labels.idxOf?
    handlers := b.handlers.filterMap fun clause =>
      (labels.idxOf? clause.handler).map fun block => ⟨clause.exception, block⟩ }

def finishBlocks (a : Assembler) : Except Error (List BasicBlock) :=
  let labels := a.surviving
  labels.zipIdx.mapM fun (l, id) => a.finishBlock labels id l

/-- Assigns registers unless that was done before. -/
def ensureRegisters (a : Assembler) : Outcome Assembler Unit :=
  if a.frame.isSome then .ok a () else a.assignRegisters

/-- The finished body, provided that no code runs out of it. -/
def complete (a : Assembler) : Outcome Assembler MethodBody :=
  let pending := a.pending
  let unplaced := a.unplaced
  if pending.isSome || !unplaced.isEmpty then .fail a (.bodyNotFinished pending unplaced)
  else match a.frame with
    | none => .fail a .registersNotAssigned
    | some frame =>
      match a.finishBlocks with
      | .error e => .fail a e
      | .ok blocks =>
        (Outcome.ok a ⟨blocks, frame.size, frame.parameterSize⟩).note
          (.finished a.method blocks.length (a.order.size - blocks.length))

/-- Moves of arguments alone do not make a body. -/
def finish (a : Assembler) : Outcome Assembler MethodBody :=
  if a.isEmpty then .fail a (.bodyNotFinished a.order[0]? [])
  else a.ensureRegisters.andThen fun a _ => a.complete

end Dalvik.Assembler
