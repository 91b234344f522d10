import Dalvik.Proofs.Calls
import Dalvik.Proofs.Layout

/-! The variables of a body. The arguments are there from the start, the others are created one by one
and only before registers are assigned; each has an index of its own, by which the frame finds it. -/
namespace Dalvik

def Operation.isLayout : Operation → Bool
  | newLocal _ | assignRegisters | finish => true
  | _ => false

namespace Assembler

variable {a b : Assembler}

structure SameVariables (a b : Assembler) : Prop where
  locals : b.locals = a.locals
  nextLocal : b.nextLocal = a.nextLocal
  frame : b.frame = a.frame

theorem SameVariables.refl (a : Assembler) : SameVariables a a := ⟨rfl, rfl, rfl⟩

theorem SameVariables.trans {a b c : Assembler} (first : SameVariables a b)
    (second : SameVariables b c) : SameVariables a c where
  locals := second.locals.trans first.locals
  nextLocal := second.nextLocal.trans first.nextLocal
  frame := second.frame.trans first.frame

theorem adopt_variables {l : Label} (h : a.adopt l = .ok b) : SameVariables a b := by
  obtain ⟨-, ⟨-, rfl⟩ | ⟨-, rfl⟩⟩ := adopt_cases h <;> exact ⟨rfl, rfl, rfl⟩

theorem route_variables (l : Label) (i : Instruction Local) (target : Option Label) :
    SameVariables a (a.route l i target).state := by
  unfold route
  split
  · split <;> exact ⟨rfl, rfl, rfl⟩
  all_goals exact ⟨rfl, rfl, rfl⟩

theorem append_variables (i : Instruction Local) (target : Option Label) :
    SameVariables a (a.append i target).state := by
  obtain ⟨e, h⟩ | ⟨l, -, -, h⟩ := append_cases (a := a) i target
  · rw [h]
    exact .refl a
  · rw [h]
    have pushed : SameVariables a (a.push l i) := ⟨rfl, rfl, rfl⟩
    exact pushed.trans (route_variables l i target)

theorem appendAll_variables (is : List (Instruction Local)) :
    SameVariables a (a.appendAll is).state := by
  induction is generalizing a with
  | nil => exact .refl a
  | cons i is ih =>
    have first : SameVariables a (a.append i none).state := append_variables i none
    exact Outcome.state_andThen (P := SameVariables a) first fun _ => first.trans ih

theorem appendTo_variables (target : Label) (i : Instruction Local) :
    SameVariables a (a.appendTo target i).state := by
  unfold appendTo
  split
  · exact .refl a
  · rename_i hadopt
    exact (adopt_variables hadopt).trans (append_variables ..)

theorem entered_variables (l : Label) : SameVariables a (a.entered l) := ⟨rfl, rfl, rfl⟩

theorem jumped_variables (c l : Label) : SameVariables a (a.jumped c l) := ⟨rfl, rfl, rfl⟩

theorem mark_variables (l : Label) : SameVariables a (a.mark l).state := by
  obtain ⟨e, h⟩ | ⟨b, hadopt, ⟨-, h⟩ | ⟨-, ⟨-, h⟩ | ⟨c, -, h⟩⟩⟩ := mark_cases (a := a) l
  all_goals rw [h]
  · exact .refl a
  all_goals refine (adopt_variables hadopt).trans ?_
  · exact .refl b
  · exact entered_variables l
  · exact (jumped_variables c l).trans (entered_variables l)

theorem branch_variables (comparison : Comparison) (target : Label) (x : Local) (y : Option Local) :
    SameVariables a (a.branch comparison target x y).state := by
  simp only [branch]
  split
  · exact .refl a
  · exact appendTo_variables ..

theorem addCatch_variables (exception : Ty) (handler : Label) :
    SameVariables a (a.addCatch exception handler).state := by
  unfold addCatch
  split
  · exact .refl a
  · split
    · exact .refl a
    · split
      · exact .refl a
      · rename_i b hadopt
        exact (adopt_variables hadopt).trans ⟨rfl, rfl, rfl⟩

theorem removeCatch_variables (exception : Ty) :
    SameVariables a (a.removeCatch exception).state := by
  unfold removeCatch
  split <;> exact ⟨rfl, rfl, rfl⟩

theorem emit_variables (statement : Statement) : SameVariables a (a.emit statement).state := by
  unfold emit
  split
  · exact .refl a
  · exact appendAll_variables _

theorem run_variables {operation : Operation} (h : operation.isLayout = false) :
    SameVariables a (a.run operation).state := by
  cases operation with
  | mark label => exact mark_variables label
  | jump label => exact appendTo_variables ..
  | branch comparison target x y => exact branch_variables ..
  | addCatch exception handler => exact addCatch_variables ..
  | removeCatch exception => exact removeCatch_variables exception
  | emit statement => exact emit_variables statement
  | newLocal type => cases h
  | assignRegisters => cases h
  | finish => cases h
  | _ => exact ⟨rfl, rfl, rfl⟩

theorem run_frame {operation : Operation} (hassign : operation ≠ .assignRegisters)
    (hfinish : operation ≠ .finish) : (a.run operation).state.frame = a.frame := by
  cases operation with
  | newLocal type =>
    change (a.newLocal type).state.frame = a.frame
    obtain ⟨e, h⟩ | ⟨-, -, -, h⟩ := newLocal_cases (a := a) type <;> rw [h] <;> rfl
  | assignRegisters => exact absurd rfl hassign
  | finish => exact absurd rfl hfinish
  | _ => exact (run_variables rfl).frame

theorem prepend_variables (moves : Array (Instruction Local)) :
    SameVariables a (a.prepend moves) := by
  unfold prepend
  split <;> exact ⟨rfl, rfl, rfl⟩

theorem assignRegisters_locals : a.assignRegisters.state.locals = a.locals := by
  obtain ⟨e, h⟩ | ⟨frame, moves, -, -, h⟩ := a.assignRegisters_cases
  · rw [h]
    rfl
  · rw [h]
    exact (prepend_variables moves).locals

theorem finish_locals : a.finish.state.locals = a.locals := by
  rw [finish_state, ← assignRegisters_state]
  split
  · exact assignRegisters_locals
  · rfl

def made? : Operation → Except Error Reply → Option Local
  | .newLocal _, .ok (.operand x) => some x
  | _, _ => none

theorem newLocal_locals (type : Ty) : (a.run (.newLocal type)).state.locals.toList =
    a.locals.toList ++ (made? (.newLocal type) (a.run (.newLocal type)).result).toList := by
  simp only [run, newLocal, Outcome.map]
  split
  · simp [Outcome.fail, Except.map, made?]
  · split
    · simp [Outcome.fail, Except.map, made?]
    · simp [Outcome.ok, Except.map, made?]

theorem run_locals (operation : Operation) : (a.run operation).state.locals.toList =
    a.locals.toList ++ (made? operation (a.run operation).result).toList := by
  have kept {operation : Operation} (hlocals : (a.run operation).state.locals = a.locals)
      (hmade : made? operation (a.run operation).result = none) :
      (a.run operation).state.locals.toList =
        a.locals.toList ++ (made? operation (a.run operation).result).toList := by
    simp [hlocals, hmade]
  cases operation with
  | newLocal type => exact newLocal_locals type
  | assignRegisters => exact kept assignRegisters_locals rfl
  | finish => exact kept finish_locals rfl
  | _ => exact kept (run_variables rfl).locals rfl

def created (a : Assembler) : List Operation → List Local
  | [] => []
  | operation :: rest =>
    (made? operation (a.run operation).result).toList ++ (a.run operation).state.created rest

theorem runAll_locals (history : List Operation) :
    (a.runAll history).locals.toList = a.locals.toList ++ a.created history := by
  induction history generalizing a with
  | nil => simp [runAll, created]
  | cons operation rest ih =>
    have hrun : a.runAll (operation :: rest) = (a.run operation).state.runAll rest := rfl
    rw [hrun, ih, created, run_locals, List.append_assoc]

/-- Variables are told apart by their indices, the arguments first and then the others as they were
created; a frame has a register for each. -/
structure Numbered (a : Assembler) : Prop where
  arguments : a.parameters.toList =
    (argumentTypes a.method a.isStatic).mapIdx fun index type => ⟨a.body, index, type⟩
  receiver : a.receiver = if a.isStatic then none else a.parameters[0]?
  owned : ∀ x ∈ a.locals.toList, x.body = a.body
  indices : a.locals.toList.map Local.index = List.range' a.parameters.size a.locals.size
  next : a.nextLocal = a.parameters.size + a.locals.size
  laid : ∀ frame, a.frame = some frame → ∃ moves, a.Laid frame moves

theorem Numbered.types (numbered : a.Numbered) :
    a.parameters.toList.map Local.type = argumentTypes a.method a.isStatic := by
  rw [numbered.arguments]
  exact List.ext_getElem (by simp) (by simp)

theorem start_numbered (id : BodyId) (method : MethodId) (isStatic : Bool) :
    (start id method isStatic).Numbered where
  arguments := by simp [start]
  receiver := rfl
  owned := by simp [start]
  indices := by simp [start]
  next := by simp [start]
  laid := by simp [start]

theorem Laid.congr {frame : Frame} {moves : Array (Instruction Local)} (laid : a.Laid frame moves)
    (hlocals : b.locals = a.locals) (hparameters : b.parameters = a.parameters)
    (hnext : b.nextLocal = a.nextLocal) : b.Laid frame moves := by
  have horder : b.frameOrder = a.frameOrder := by rw [frameOrder, frameOrder, hlocals, hparameters]
  exact ⟨by rw [horder, hnext]; exact laid.places, by rw [horder]; exact laid.fits,
    by rw [horder]; exact laid.size, by rw [hparameters]; exact laid.parameterSize,
    by rw [hparameters]; exact laid.moves⟩

theorem Numbered.congr (numbered : a.Numbered) (same : SameMethod a b)
    (hlocals : b.locals = a.locals) (hnext : b.nextLocal = a.nextLocal)
    (hlaid : ∀ frame, b.frame = some frame → ∃ moves, a.Laid frame moves) : b.Numbered where
  arguments := by rw [same.parameters, same.method, same.isStatic, same.body, numbered.arguments]
  receiver := by rw [same.receiver, same.isStatic, same.parameters, numbered.receiver]
  owned := by rw [hlocals, same.body]; exact numbered.owned
  indices := by rw [hlocals, same.parameters, numbered.indices]
  next := by rw [hnext, hlocals, same.parameters, numbered.next]
  laid := fun frame h => by
    obtain ⟨moves, laid⟩ := hlaid frame h
    exact ⟨moves, laid.congr hlocals same.parameters hnext⟩

theorem Step.numbered {entry : Option Entry} (step : Step a entry b) (numbered : a.Numbered) :
    b.Numbered := by
  have same := step.sameMethod
  cases step with
  | newLocal type early unassigned value =>
    refine ⟨numbered.arguments, numbered.receiver, ?_, ?_, ?_, ?_⟩
    · simpa [or_imp, forall_and] using numbered.owned
    · simp [numbered.indices, numbered.next, List.range'_1_concat]
    · simp [numbered.next, Nat.add_assoc]
    · simp [unassigned]
  | append l i target current operands emits =>
    obtain ⟨hlocals, hnext, hframe⟩ := route_variables (a := a.push l i) l i target
    exact numbered.congr same hlocals hnext fun frame h => numbered.laid frame (hframe.symm.trans h)
  | assign frame moves unassigned layout =>
    obtain ⟨hlocals, hnext, -⟩ := prepend_variables (a := a) moves
    refine numbered.congr same hlocals hnext fun frame' h => ?_
    obtain rfl : frame = frame' := Option.some.inj h
    exact ⟨moves, laid_of_layout layout⟩
  | _ => exact numbered.congr same rfl rfl numbered.laid

theorem Steps.numbered {log : List Entry} (steps : Steps a log b) (numbered : a.Numbered) :
    b.Numbered := by
  induction steps with
  | refl => exact numbered
  | tail _ step ih => exact step.numbered ih

/-- Once registers are assigned, neither they nor the variables change. -/
theorem Step.assigned {entry : Option Entry} (step : Step a entry b) {frame : Frame}
    (h : a.frame = some frame) : b.frame = some frame ∧ b.locals = a.locals := by
  cases step with
  | newLocal type early unassigned value => simp [h] at unassigned
  | assign frame moves unassigned layout => simp [h] at unassigned
  | append l i target current operands emits =>
    obtain ⟨hlocals, -, hframe⟩ := route_variables (a := a.push l i) l i target
    exact ⟨hframe.trans h, hlocals⟩
  | _ => exact ⟨h, rfl⟩

theorem Steps.assigned {log : List Entry} (steps : Steps a log b) {frame : Frame}
    (h : a.frame = some frame) : b.frame = some frame ∧ b.locals = a.locals := by
  induction steps with
  | refl => exact ⟨h, rfl⟩
  | tail _ step ih =>
    obtain ⟨hframe, hlocals⟩ := step.assigned ih.1
    exact ⟨hframe, hlocals.trans ih.2⟩

end Assembler
end Dalvik
