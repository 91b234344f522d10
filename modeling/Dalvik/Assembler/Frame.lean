import Dalvik.Assembler.Basic

/-! Registers for the variables of a body. Plain variables come first, in the order they were
created, and the incoming arguments last, where the machine puts them. -/
namespace Dalvik

/-- Register numbers have sixteen bits. -/
def registerNumber (n : Nat) : Except Error UInt16 :=
  if n < 65536 then .ok (UInt16.ofNat n) else .error (.registerOverflow n)

/-- Registers given so far, by variable, and the next one that is free. -/
structure Placement where
  numbers : Array UInt16
  next : Nat

namespace Placement

def place (p : Placement) (x : Local) : Except Error Placement := do
  let number ← registerNumber p.next
  return ⟨p.numbers.setIfInBounds x.index number, p.next + x.width⟩

/-- Places an argument and moves it there from its position among the arguments, which start at
register `first`. -/
def placeArgument (first : Nat) (state : Placement × Array (Instruction Local)) (x : Local) :
    Except Error (Placement × Array (Instruction Local)) := do
  let start := state.1.next
  let placed ← state.1.place x
  let index ← registerNumber (start - first)
  return (placed, state.2.push (.moveParameter x index))

end Placement

namespace Assembler

/-- The frame of a body and the moves that fill it on entry. -/
def layout (a : Assembler) : Except Error (Frame × Array (Instruction Local)) := do
  let locals ← a.locals.foldlM Placement.place ⟨Array.replicate a.nextLocal 0, 0⟩
  let first := locals.next
  let (all, moves) ← a.parameters.foldlM (Placement.placeArgument first) (locals, #[])
  let size ← registerNumber all.next
  let parameterSize ← registerNumber (all.next - first)
  return (⟨all.numbers, size, parameterSize⟩, moves)

/-- Puts instructions in front of the entry block. -/
def prepend (a : Assembler) (moves : Array (Instruction Local)) : Assembler :=
  match a.order[0]? with
  | none => a
  | some entry => a.editBlock entry fun b => { b with instructions := moves ++ b.instructions }

def assignRegisters (a : Assembler) : Outcome Assembler Unit :=
  if a.frame.isSome then .fail a .registersAlreadyAssigned
  else match a.layout with
    | .error e => .fail a e
    | .ok (frame, moves) =>
      (Outcome.ok { a.prepend moves with frame := some frame } ()).note
        (.assigned frame.size frame.parameterSize a.method)

def register (a : Assembler) (x : Local) : Except Error Register :=
  if x.body ≠ a.body then .error (.foreignLocal x)
  else match a.frame with
    | none => .error .registersNotAssigned
    | some frame =>
      match frame.numbers[x.index]? with
      | none => .error (.foreignLocal x)
      | some number => .ok ⟨number, x.type⟩

end Assembler
end Dalvik
