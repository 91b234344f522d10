import Dalvik.Assembler.Basic

/-! Blocks and the edges between them. `append` is the only way for an instruction into a body:
it closes or splits the current block as the instruction demands. -/
namespace Dalvik.Assembler

def ownsLabel (a : Assembler) (l : Label) : Bool := l.body == a.body && l.index < a.blocks.size

def owns (a : Assembler) (x : Local) : Bool := x.body == a.body

/-- Takes a label into use. -/
def adopt (a : Assembler) (l : Label) : Except Error Assembler :=
  if !a.ownsLabel l then .error (.foreignLabel l)
  else if (a.block l).adopted then .ok a
  else .ok { a.editBlock l ({ · with adopted := true }) with order := a.order.push l }

/-- Puts an instruction at the end of a block. -/
def push (a : Assembler) (l : Label) (instruction : Instruction Local) : Assembler :=
  { a.editBlock l fun b => { b with instructions := b.instructions.push instruction } with
    emitted := true }

/-- Ends a block with the given edges; no block is open after it. -/
def close (a : Assembler) (l : Label) (edges : DraftBlock → DraftBlock) : Assembler :=
  { a.editBlock l edges with current := none }

/-- Ends a block that goes on in a new one. -/
def split (a : Assembler) (l : Label) (alternate : Option Label) (handlers : List CatchClause) :
    Assembler :=
  let next := a.freshLabel
  let a := a.editBlock l ({ · with primary := some next, alternate, handlers })
  { a with
    blocks := a.blocks.push { adopted := true, marked := true }
    order := a.order.push next
    current := some next }

/-- What an appended instruction does to the block it ends up in. Inside a catch clause every
instruction that can throw ends its block, so that a block is handled as a whole. -/
def route (a : Assembler) (l : Label) (instruction : Instruction Local) (target : Option Label) :
    Outcome Assembler Unit :=
  match instruction.flow with
  | .next =>
    if instruction.canThrow && !a.catches.isEmpty then
      (Outcome.ok (a.split l none a.catches) ()).note (.split l a.freshLabel)
    else .ok a ()
  | .goto => .ok (a.close l ({ · with primary := target })) ()
  | .branch => (Outcome.ok (a.split l target []) ()).note (.split l a.freshLabel)
  | .leave => .ok (a.close l id) ()
  | .raise => .ok (a.close l ({ · with handlers := a.catches })) ()

def append (a : Assembler) (instruction : Instruction Local) (target : Option Label) :
    Outcome Assembler Unit :=
  match a.current with
  | none => .fail a (.noOpenBlock instruction)
  | some l =>
    match instruction.operands.find? fun x => !a.owns x with
    | some x => .fail a (.foreignLocal x)
    | none =>
      ((a.push l instruction).route l instruction target).note (.appended l instruction target)

/-- Appends in order; what was appended before an error stays. -/
def appendAll (a : Assembler) : List (Instruction Local) → Outcome Assembler Unit
  | [] => .ok a ()
  | instruction :: rest => (a.append instruction none).andThen fun a _ => a.appendAll rest

/-- Appends an instruction that refers to a label. The label is in use from then on, even if the
instruction is refused. -/
def appendTo (a : Assembler) (target : Label) (instruction : Instruction Local) :
    Outcome Assembler Unit :=
  match a.adopt target with
  | .error e => .fail a e
  | .ok a => a.append instruction (some target)

def jump (a : Assembler) (target : Label) : Outcome Assembler Unit := a.appendTo target .goto

/-- Goes on in the block of a label. An open block is closed with a jump to it. -/
def mark (a : Assembler) (l : Label) : Outcome Assembler Unit :=
  match a.adopt l with
  | .error e => .fail a e
  | .ok a =>
    if (a.block l).marked then .fail a (.labelAlreadyMarked l)
    else
      let a := a.editBlock l ({ · with marked := true })
      let closed := if a.current.isSome then a.jump l else .ok a ()
      closed.andThen fun a _ => .ok { a with current := some l } ()

/-- Handles exceptions of a type thrown by the code that follows. -/
def addCatch (a : Assembler) (exception : Ty) (handler : Label) : Outcome Assembler Unit :=
  if !exception.isReference then
    .fail a (.typeMismatch .exceptionType .reference (.type exception))
  else if a.catches.any (·.exception == exception) then .fail a (.alreadyCaught exception)
  else match a.adopt handler with
    | .error e => .fail a e
    | .ok a => .ok { a with catches := ⟨exception, handler⟩ :: a.catches } ()

/-- Ends a clause, whether or not it is the innermost, and gives its handler. -/
def removeCatch (a : Assembler) (exception : Ty) : Outcome Assembler Label :=
  match a.catches.find? (·.exception == exception) with
  | none => .fail a (.noCatchClause exception)
  | some clause =>
    .ok { a with catches := a.catches.eraseP (·.exception == exception) } clause.handler

end Dalvik.Assembler
