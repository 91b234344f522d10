import Dalvik.Assembler.Operation
import Dalvik.Proofs.Traversal

/-! Labels under other numbers. Calls, their answers and the blocks of a body show labels; the checks of
operands and the look-up of registers do not. -/
namespace Dalvik

section Definitions

variable (τ : Label → Label)

def CatchClause.renumber (c : CatchClause) : CatchClause := ⟨c.exception, τ c.handler⟩

def DraftBlock.renumber (d : DraftBlock) : DraftBlock :=
  { d with
    primary := d.primary.map τ
    alternate := d.alternate.map τ
    handlers := d.handlers.map (CatchClause.renumber τ) }

def Operation.renumber : Operation → Operation
  | mark label => mark (τ label)
  | jump label => jump (τ label)
  | branch comparison target a b => branch comparison (τ target) a b
  | addCatch exception handler => addCatch exception (τ handler)
  | operation => operation

def Reply.renumber : Reply → Reply
  | label l => label (τ l)
  | reply => reply

def Error.renumber : Error → Error
  | foreignLabel label => foreignLabel (τ label)
  | labelAlreadyMarked label => labelAlreadyMarked (τ label)
  | bodyNotFinished pending unplaced => bodyNotFinished (pending.map τ) (unplaced.map τ)
  | error => error

def renumbered (f : α → α) : Except Error α → Except Error α
  | .ok value => .ok (f value)
  | .error e => .error (e.renumber τ)

end Definitions

variable {τ : Label → Label}

theorem DraftBlock.successors_renumber (d : DraftBlock) :
    (d.renumber τ).successors = d.successors.map τ := by
  have hhandlers : (d.handlers.map (CatchClause.renumber τ)).map CatchClause.handler =
      (d.handlers.map CatchClause.handler).map τ := by
    rw [List.map_map, List.map_map]
    rfl
  simp only [successors, renumber, hhandlers, List.map_append]
  cases d.primary <;> cases d.alternate <;> rfl

theorem DraftBlock.renumber_congr {τ' : Label → Label} {d : DraftBlock}
    (h : ∀ s ∈ d.successors, τ' s = τ s) : d.renumber τ' = d.renumber τ := by
  have hprimary : d.primary.map τ' = d.primary.map τ :=
    Option.map_congr fun s hs => h s (by simp [successors, hs])
  have halternate : d.alternate.map τ' = d.alternate.map τ :=
    Option.map_congr fun s hs => h s (by simp [successors, hs])
  have hhandlers : d.handlers.map (CatchClause.renumber τ') = d.handlers.map (CatchClause.renumber τ) := by
    apply List.map_congr_left
    intro c hc
    have hhandler := h c.handler (List.mem_append_right _ (List.mem_map_of_mem hc))
    simp only [CatchClause.renumber, hhandler]
  simp only [renumber, hprimary, halternate, hhandlers]

def Unlabelled (τ : Label → Label) (x : Except Error α) : Prop :=
  ∀ e, x = .error e → e.renumber τ = e

section Unlabelled

theorem unlabelled_pure (value : α) : Unlabelled τ (pure value) := by
  intro e he
  cases he

theorem unlabelled_error {e : Error} (h : e.renumber τ = e) :
    Unlabelled τ (.error e : Except Error α) := by
  intro e' he
  cases he
  exact h

theorem Unlabelled.bind {x : Except Error α} {k : α → Except Error β} (h : Unlabelled τ x)
    (hnext : ∀ value, Unlabelled τ (k value)) : Unlabelled τ (x >>= k) := by
  intro e he
  obtain he | ⟨value, -, he⟩ := bind_eq_error.mp he
  · exact h e he
  · exact hnext value e he

theorem unlabelled_mapM {f : α → Except Error β} (h : ∀ x, Unlabelled τ (f x)) (xs : List α) :
    Unlabelled τ (xs.mapM f) := by
  induction xs with
  | nil => exact unlabelled_pure []
  | cons x xs ih =>
    rw [List.mapM_cons]
    exact (h x).bind fun y => ih.bind fun ys => unlabelled_pure _

theorem Instruction.unlabelled_traverse {f : R → Except Error S} (h : ∀ x, Unlabelled τ (f x))
    (i : Instruction R) : Unlabelled τ (i.traverse f) := by
  intro e he
  exact unlabelled_mapM h i.operands e (traverse_eq_error.mp he)

namespace Typing

theorem unlabelled_require {holds : Bool} {e : Error} (h : e.renumber τ = e) :
    Unlabelled τ (require holds e) := by
  cases holds with
  | true => exact unlabelled_pure ()
  | false => exact unlabelled_error h

theorem unlabelled_element (array found : Ty) : Unlabelled τ (element array found) := by
  unfold element
  split
  · exact unlabelled_error rfl
  · exact unlabelled_require rfl

theorem unlabelled_branchOperand (comparison : Comparison) (found : Ty) :
    Unlabelled τ (branchOperand comparison found) := by
  unfold branchOperand
  split
  · exact unlabelled_require rfl
  · exact unlabelled_require rfl

theorem unlabelled_arguments (method : MethodId) (receiver : Option Local) (args : List Local) :
    Unlabelled τ (arguments method receiver args) := by
  have hargs (pairs : List (Ty × Local)) :
      Unlabelled τ (pairs.forM fun p => assignable .argument p.1 p.2.type) := by
    intro e he
    obtain ⟨p, -, hp⟩ := forM_eq_error he
    exact unlabelled_require rfl e hp
  refine (unlabelled_require rfl).bind fun _ => ?_
  cases receiver with
  | none => exact hargs _
  | some x => exact (unlabelled_require rfl).bind fun _ => hargs _

end Typing

namespace Statement

open Typing

theorem unlabelled_checkResult (method : MethodId) (result : Option Local) :
    Unlabelled τ (checkResult method result) := by
  cases result with
  | none => exact unlabelled_pure []
  | some x =>
    simp only [checkResult]
    split
    · exact unlabelled_pure []
    · exact (unlabelled_require rfl).bind fun _ => unlabelled_pure _

theorem unlabelled_instructions (method : MethodId) (statement : Statement) :
    Unlabelled τ (statement.instructions method) := by
  have hnumeric (dst src : Local) : Unlabelled τ (checkNumericCast dst src) :=
    (unlabelled_require rfl).bind fun _ => (unlabelled_require rfl).bind fun _ => unlabelled_pure _
  have htype (dst src : Local) : Unlabelled τ (checkTypeCast dst src) :=
    (unlabelled_require rfl).bind fun _ => (unlabelled_require rfl).bind fun _ => unlabelled_pure _
  cases statement with
  | numericCast dst src => exact hnumeric dst src
  | typeCast dst src => exact htype dst src
  | cast dst src =>
    simp only [instructions]
    split
    · exact hnumeric dst src
    · split
      · exact htype dst src
      · exact unlabelled_error rfl
  | binary op dst a b =>
    refine (unlabelled_require rfl).bind fun _ => ?_
    split
    · exact (unlabelled_require rfl).bind fun _ => (unlabelled_require rfl).bind fun _ =>
        unlabelled_pure _
    · exact (unlabelled_require rfl).bind fun _ => (unlabelled_require rfl).bind fun _ =>
        unlabelled_pure _
  | newInstance dst target args =>
    exact (unlabelled_require rfl).bind fun _ => (unlabelled_require rfl).bind fun _ =>
      (unlabelled_arguments _ _ _).bind fun _ => unlabelled_pure _
  | invoke call target result args =>
    exact (unlabelled_arguments _ _ _).bind fun _ => (unlabelled_checkResult _ _).bind fun _ =>
      unlabelled_pure _
  | arrayGet dst array index =>
    exact (unlabelled_element _ _).bind fun _ => (unlabelled_require rfl).bind fun _ => unlabelled_pure _
  | arrayPut array index src =>
    exact (unlabelled_element _ _).bind fun _ => (unlabelled_require rfl).bind fun _ => unlabelled_pure _
  | _ =>
    -- one, two or three checks of types
    first
    | exact (unlabelled_require rfl).bind fun _ => unlabelled_pure _
    | exact (unlabelled_require rfl).bind fun _ => (unlabelled_require rfl).bind fun _ =>
        unlabelled_pure _
    | exact (unlabelled_require rfl).bind fun _ => (unlabelled_require rfl).bind fun _ =>
        (unlabelled_require rfl).bind fun _ => unlabelled_pure _

end Statement

namespace Assembler

theorem unlabelled_register (a : Assembler) (x : Local) : Unlabelled τ (a.register x) := by
  unfold register
  split
  · exact unlabelled_error rfl
  · split
    · exact unlabelled_error rfl
    · split
      · exact unlabelled_error rfl
      · exact unlabelled_pure _

theorem unlabelled_asked (role : Role) (type : Ty) (x : Local) : Unlabelled τ (asked role type x) := by
  unfold asked
  split
  · exact unlabelled_pure x
  · exact unlabelled_error rfl

theorem unlabelled_askParameter (a : Assembler) (index : Nat) (type : Ty) :
    Unlabelled τ (a.askParameter index type) := by
  simp only [askParameter]
  split
  · exact unlabelled_error rfl
  · exact unlabelled_asked _ _ _

theorem unlabelled_askReceiver (a : Assembler) (type : Ty) : Unlabelled τ (a.askReceiver type) := by
  unfold askReceiver
  split
  · exact unlabelled_error rfl
  · exact unlabelled_asked _ _ _

theorem unlabelled_finishBlocks (a : Assembler) : Unlabelled τ a.finishBlocks := by
  apply unlabelled_mapM
  intro p
  have hcode := unlabelled_mapM (Instruction.unlabelled_traverse (unlabelled_register (τ := τ) a))
    (a.block p.1).instructions.toList
  exact hcode.bind fun _ => unlabelled_pure _

end Assembler

end Unlabelled

end Dalvik
