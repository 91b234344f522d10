import Dalvik.Proofs.Blocks
import Dalvik.Proofs.TypeRules

/-! Elementary steps. Every call on a body, whether it succeeds or not, amounts to a few of the steps
below, and the journal of the call tells which instructions they appended. What holds of all bodies
is therefore shown step by step. -/
namespace Dalvik

/-- An instruction as it was appended: the block that it went into and the label it refers to. -/
structure Entry where
  block : Label
  instruction : Instruction Local
  target : Option Label
  deriving DecidableEq

def Event.entry? : Event → Option Entry
  | appended block instruction target => some ⟨block, instruction, target⟩
  | _ => none

def entries (events : List Event) : List Entry := events.filterMap Event.entry?

@[simp] theorem entries_append (events later : List Event) :
    entries (events ++ later) = entries events ++ entries later :=
  List.filterMap_append

namespace Assembler

def Uses (a : Assembler) (l : Label) : Prop := a.ownsLabel l = true ∧ (a.block l).adopted = true

theorem uses_congr {a b : Assembler} {l : Label} (hbody : b.body = a.body)
    (hblocks : b.blocks = a.blocks) : b.Uses l ↔ a.Uses l := by
  unfold Uses
  rw [ownsLabel_congr hbody hblocks, block_congr hblocks]

theorem uses_grow {a : Assembler} {b : DraftBlock} {l : Label} :
    (a.grow b).Uses l ↔ a.Uses l ∨ l = a.freshLabel ∧ b.adopted = true := by
  unfold Uses
  rw [ownsLabel_grow]
  constructor
  · rintro ⟨howned | rfl, h⟩
    · exact .inl ⟨howned, block_grow_of_owned howned ▸ h⟩
    · exact .inr ⟨rfl, block_grow_fresh (b := b) ▸ h⟩
  · rintro (⟨howned, h⟩ | ⟨rfl, h⟩)
    · exact ⟨.inl howned, (block_grow_of_owned howned).symm ▸ h⟩
    · exact ⟨.inr rfl, (block_grow_fresh (b := b)).symm ▸ h⟩

/-- `b` has the labels and blocks of `a`, but for one block that was edited, and its clauses. -/
structure Edited (a : Assembler) (l : Label) (f : DraftBlock → DraftBlock) (b : Assembler) : Prop where
  body : b.body = a.body
  blocks : b.blocks = (a.editBlock l f).blocks
  catches : b.catches = a.catches

namespace Edited

variable {a b : Assembler} {l m : Label} {f : DraftBlock → DraftBlock}

theorem ownsLabel (edited : Edited a l f b) : b.ownsLabel m = a.ownsLabel m :=
  (ownsLabel_congr (a := a.editBlock l f) edited.body edited.blocks).trans ownsLabel_editBlock

theorem block_self (edited : Edited a l f b) (owned : a.ownsLabel l = true) :
    b.block l = f (a.block l) :=
  (block_congr edited.blocks).trans (block_editBlock_self owned)

theorem block_of_ne (edited : Edited a l f b) (hl : a.ownsLabel l = true)
    (hm : a.ownsLabel m = true) (h : m ≠ l) : b.block m = a.block m :=
  (block_congr edited.blocks).trans (block_editBlock_of_ne hl hm h)

theorem observe {γ : Type} (edited : Edited a l f b) (observe : DraftBlock → γ)
    (h : ∀ b, observe (f b) = observe b) : observe (b.block m) = observe (a.block m) := by
  rw [block_congr edited.blocks]
  exact observe_editBlock observe h

theorem uses (edited : Edited a l f b) (h : ∀ b, (f b).adopted = b.adopted) :
    b.Uses m ↔ a.Uses m := by
  rw [Uses, Uses, edited.ownsLabel, edited.observe DraftBlock.adopted h]

end Edited

/-- An instruction that may be appended: it obeys its typing rule, it is no move of an argument, and
it comes with a label in use exactly if it refers to one. -/
structure Emits (a : Assembler) (i : Instruction Local) (target : Option Label) : Prop where
  typed : (i.map Local.type).WellTyped a.method a.isStatic
  plain : i.isMoveParameter = false
  labelled : if i.flow.hasTarget then ∃ t, target = some t ∧ a.Uses t else target = none

inductive Step : Assembler → Option Entry → Assembler → Prop
  | label (a : Assembler) : Step a none (a.grow {})
  | newLocal (a : Assembler) (type : Ty) (early : a.emitted = false) (unassigned : a.frame = none)
      (value : type.isVoid = false) :
      Step a none { a with
        locals := a.locals.push ⟨a.body, a.nextLocal, type⟩
        nextLocal := a.nextLocal + 1 }
  | adopt (a : Assembler) (l : Label) (owned : a.ownsLabel l = true)
      (unused : (a.block l).adopted = false) :
      Step a none { a.editBlock l ({ · with adopted := true }) with order := a.order.push l }
  /-- A label gets its block, while no other block is open. -/
  | enter (a : Assembler) (l : Label) (closed : a.current = none) (uses : a.Uses l)
      (unmarked : (a.block l).marked = false) :
      Step a none { a.editBlock l ({ · with marked := true }) with current := some l }
  | protect (a : Assembler) (clause : CatchClause) (thrown : clause.exception.isReference = true)
      (uncaught : a.catches.any (·.exception == clause.exception) = false)
      (uses : a.Uses clause.handler) :
      Step a none { a with catches := clause :: a.catches }
  | expose (a : Assembler) (exception : Ty) :
      Step a none { a with catches := a.catches.eraseP (·.exception == exception) }
  | append (a : Assembler) (l : Label) (i : Instruction Local) (target : Option Label)
      (current : a.current = some l) (operands : ∀ x ∈ i.operands, a.owns x = true)
      (emits : a.Emits i target) :
      Step a (some ⟨l, i, target⟩) ((a.push l i).route l i target).state
  | assign (a : Assembler) (frame : Frame) (moves : Array (Instruction Local))
      (unassigned : a.frame = none) (layout : a.layout = .ok (frame, moves)) :
      Step a none { a.prepend moves with frame := some frame }

inductive Steps (a : Assembler) : List Entry → Assembler → Prop
  | refl : Steps a [] a
  | tail {b c : Assembler} {log : List Entry} {entry : Option Entry} (steps : Steps a log b)
      (step : Step b entry c) : Steps a (log ++ entry.toList) c

theorem Steps.trans {a b c : Assembler} {log later : List Entry} (first : Steps a log b)
    (second : Steps b later c) : Steps a (log ++ later) c := by
  induction second with
  | refl => simpa using first
  | tail _ step ih =>
    rw [← List.append_assoc]
    exact ih.tail step

theorem Step.single {a b : Assembler} {entry : Option Entry} (step : Step a entry b) :
    Steps a entry.toList b :=
  Steps.refl.tail step

inductive Steady (a : Assembler) : List Entry → Assembler → Prop
  | refl : Steady a [] a
  | tail {b c : Assembler} {log : List Entry} {entry : Option Entry} (steady : Steady a log b)
      (step : Step b entry c) (clauses : c.catches = b.catches) : Steady a (log ++ entry.toList) c

namespace Steady

variable {a b c : Assembler} {log later : List Entry} {entry : Option Entry}

theorem single (step : Step a entry b) (clauses : b.catches = a.catches) :
    Steady a entry.toList b :=
  Steady.refl.tail step clauses

theorem trans (first : Steady a log b) (second : Steady b later c) : Steady a (log ++ later) c := by
  induction second with
  | refl => simpa using first
  | tail _ step clauses ih =>
    rw [← List.append_assoc]
    exact ih.tail step clauses

theorem steps (steady : Steady a log b) : Steps a log b := by
  induction steady with
  | refl => exact .refl
  | tail _ step _ ih => exact ih.tail step

theorem catches (steady : Steady a log b) : b.catches = a.catches := by
  induction steady with
  | refl => rfl
  | tail _ _ clauses ih => exact clauses.trans ih

end Steady

structure SameMethod (a b : Assembler) : Prop where
  body : b.body = a.body
  method : b.method = a.method
  isStatic : b.isStatic = a.isStatic
  receiver : b.receiver = a.receiver
  parameters : b.parameters = a.parameters

theorem SameMethod.trans {a b c : Assembler} (first : SameMethod a b) (second : SameMethod b c) :
    SameMethod a c where
  body := second.body.trans first.body
  method := second.method.trans first.method
  isStatic := second.isStatic.trans first.isStatic
  receiver := second.receiver.trans first.receiver
  parameters := second.parameters.trans first.parameters

theorem route_sameMethod (a : Assembler) (l : Label) (i : Instruction Local)
    (target : Option Label) : SameMethod a (a.route l i target).state := by
  unfold route
  split
  · split <;> exact ⟨rfl, rfl, rfl, rfl, rfl⟩
  · exact ⟨rfl, rfl, rfl, rfl, rfl⟩
  · exact ⟨rfl, rfl, rfl, rfl, rfl⟩
  · exact ⟨rfl, rfl, rfl, rfl, rfl⟩
  · exact ⟨rfl, rfl, rfl, rfl, rfl⟩

theorem prepend_sameMethod (a : Assembler) (moves : Array (Instruction Local)) :
    SameMethod a (a.prepend moves) := by
  unfold prepend
  split <;> exact ⟨rfl, rfl, rfl, rfl, rfl⟩

theorem Step.sameMethod {a b : Assembler} {entry : Option Entry} (step : Step a entry b) :
    SameMethod a b := by
  cases step with
  | append l i target =>
    obtain ⟨h₁, h₂, h₃, h₄, h₅⟩ := route_sameMethod (a.push l i) l i target
    exact ⟨h₁, h₂, h₃, h₄, h₅⟩
  | assign frame moves =>
    obtain ⟨h₁, h₂, h₃, h₄, h₅⟩ := prepend_sameMethod a moves
    exact ⟨h₁, h₂, h₃, h₄, h₅⟩
  | _ => exact ⟨rfl, rfl, rfl, rfl, rfl⟩

theorem Steps.sameMethod {a b : Assembler} {log : List Entry} (steps : Steps a log b) :
    SameMethod a b := by
  induction steps with
  | refl => exact ⟨rfl, rfl, rfl, rfl, rfl⟩
  | tail _ step ih => exact ih.trans step.sameMethod

end Assembler
end Dalvik
