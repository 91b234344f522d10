import Dalvik.Assembler.Operation
import Dalvik.Proofs.Traversal

/-! Bodies under other identities. Handles, and the errors that show them, name the body they belong to;
what a statement stands for depends on the types of its operands only. -/
namespace Dalvik

section Definitions

variable (σ : BodyId → BodyId)

def Label.rename (l : Label) : Label := ⟨σ l.body, l.index⟩
def Local.rename (x : Local) : Local := ⟨σ x.body, x.index, x.type⟩
def Instruction.rename (i : Instruction Local) : Instruction Local := i.map (Local.rename σ)
def CatchClause.rename (c : CatchClause) : CatchClause := ⟨c.exception, c.handler.rename σ⟩

def DraftBlock.rename (b : DraftBlock) : DraftBlock where
  adopted := b.adopted
  marked := b.marked
  instructions := b.instructions.map (Instruction.rename σ)
  primary := b.primary.map (Label.rename σ)
  alternate := b.alternate.map (Label.rename σ)
  handlers := b.handlers.map (CatchClause.rename σ)

def Assembler.rename (a : Assembler) : Assembler where
  body := σ a.body
  method := a.method
  isStatic := a.isStatic
  blocks := a.blocks.map (DraftBlock.rename σ)
  order := a.order.map (Label.rename σ)
  current := a.current.map (Label.rename σ)
  receiver := a.receiver.map (Local.rename σ)
  parameters := a.parameters.map (Local.rename σ)
  locals := a.locals.map (Local.rename σ)
  nextLocal := a.nextLocal
  catches := a.catches.map (CatchClause.rename σ)
  emitted := a.emitted
  frame := a.frame

def Call.rename : Call → Call
  | static => static
  | virtual x => virtual (x.rename σ)
  | direct x => direct (x.rename σ)
  | super x => super (x.rename σ)
  | interface x => interface (x.rename σ)

def Statement.rename : Statement → Statement
  | move dst src => move (dst.rename σ) (src.rename σ)
  | const dst value => const (dst.rename σ) value
  | unary op dst src => unary op (dst.rename σ) (src.rename σ)
  | binary op dst a b => binary op (dst.rename σ) (a.rename σ) (b.rename σ)
  | numericCast dst src => numericCast (dst.rename σ) (src.rename σ)
  | typeCast dst src => typeCast (dst.rename σ) (src.rename σ)
  | cast dst src => cast (dst.rename σ) (src.rename σ)
  | compareLongs dst a b => compareLongs (dst.rename σ) (a.rename σ) (b.rename σ)
  | compareFloats bias dst a b => compareFloats bias (dst.rename σ) (a.rename σ) (b.rename σ)
  | instanceGet field dst object => instanceGet field (dst.rename σ) (object.rename σ)
  | instancePut field object src => instancePut field (object.rename σ) (src.rename σ)
  | staticGet field dst => staticGet field (dst.rename σ)
  | staticPut field src => staticPut field (src.rename σ)
  | newInstance dst method args => newInstance (dst.rename σ) method (args.map (Local.rename σ))
  | invoke call method result args =>
    invoke (call.rename σ) method (result.map (Local.rename σ)) (args.map (Local.rename σ))
  | instanceOf dst src type => instanceOf (dst.rename σ) (src.rename σ) type
  | arrayLength dst array => arrayLength (dst.rename σ) (array.rename σ)
  | newArray dst length => newArray (dst.rename σ) (length.rename σ)
  | arrayGet dst array index => arrayGet (dst.rename σ) (array.rename σ) (index.rename σ)
  | arrayPut array index src => arrayPut (array.rename σ) (index.rename σ) (src.rename σ)
  | monitorEnter object => monitorEnter (object.rename σ)
  | monitorExit object => monitorExit (object.rename σ)
  | raise value => raise (value.rename σ)
  | returnVoid => returnVoid
  | returnValue value => returnValue (value.rename σ)

def Operation.rename : Operation → Operation
  | mark label => mark (label.rename σ)
  | jump label => jump (label.rename σ)
  | branch comparison target a b =>
    branch comparison (target.rename σ) (a.rename σ) (b.map (Local.rename σ))
  | addCatch exception handler => addCatch exception (handler.rename σ)
  | emit statement => emit (statement.rename σ)
  | register x => register (x.rename σ)
  | operation => operation

def Reply.rename : Reply → Reply
  | label l => label (l.rename σ)
  | operand x => operand (x.rename σ)
  | reply => reply

def Error.rename : Error → Error
  | foreignLabel label => foreignLabel (label.rename σ)
  | foreignLocal x => foreignLocal (x.rename σ)
  | labelAlreadyMarked label => labelAlreadyMarked (label.rename σ)
  | noOpenBlock instruction => noOpenBlock (instruction.rename σ)
  | bodyNotFinished pending unplaced =>
    bodyNotFinished (pending.map (Label.rename σ)) (unplaced.map (Label.rename σ))
  | error => error

def relabel (f : α → β) : Except Error α → Except Error β
  | .ok value => .ok (f value)
  | .error e => .error (e.rename σ)

end Definitions

section Results

variable {σ : BodyId → BodyId} {f : α → β}

theorem Label.rename_injective (injective : σ.Injective) : (Label.rename σ).Injective := by
  rintro ⟨body, n⟩ ⟨body', n'⟩ h
  simp only [Label.rename, Label.mk.injEq] at h ⊢
  exact ⟨injective h.1, h.2⟩

theorem relabel_bind {x : Except Error α} {k : α → Except Error γ} {k' : β → Except Error δ}
    {g : γ → δ} (h : ∀ a, relabel σ g (k a) = k' (f a)) :
    relabel σ g (x >>= k) = relabel σ f x >>= k' := by
  cases x with
  | error e => rfl
  | ok a => exact h a

theorem relabel_bind_id {x : Except Error α} {k : α → Except Error γ} {g : γ → δ} :
    relabel σ g (x >>= k) = relabel σ id x >>= fun a => relabel σ g (k a) :=
  relabel_bind fun _ => rfl

@[simp] theorem relabel_pure (a : α) : relabel σ f (pure a) = pure (f a) := rfl

theorem relabel_mapM {step : α → Except Error γ} {step' : β → Except Error γ}
    (h : ∀ x, step' (f x) = relabel σ id (step x)) (xs : List α) :
    (xs.map f).mapM step' = relabel σ id (xs.mapM step) := by
  induction xs with
  | nil => rfl
  | cons x xs ih =>
    simp only [List.map_cons, List.mapM_cons, h, ih, relabel_bind_id, relabel_pure, id]

theorem relabel_foldlM {step : γ → α → Except Error γ} {step' : δ → β → Except Error δ} {g : γ → δ}
    (h : ∀ s x, step' (g s) (f x) = relabel σ g (step s x)) (xs : List α) (s : γ) :
    (xs.map f).foldlM step' (g s) = relabel σ g (xs.foldlM step s) := by
  induction xs generalizing s with
  | nil => rfl
  | cons x xs ih =>
    rw [List.map_cons, List.foldlM_cons, List.foldlM_cons, h]
    symm
    apply relabel_bind
    intro t
    exact (ih t).symm

theorem Instruction.traverse_rename {step step' : Local → Except Error R}
    (h : ∀ x, step' (x.rename σ) = relabel σ id (step x)) (i : Instruction Local) :
    (i.rename σ).traverse step' = relabel σ id (i.traverse step) := by
  cases i with
  | branch comparison a b =>
    cases b <;> simp only [rename, map, Option.map_none, Option.map_some, traverse, h, relabel_bind_id,
      relabel_pure, id]
  | invoke kind method args =>
    simp only [rename, map, traverse, relabel_mapM h, relabel_bind_id, relabel_pure, id]
  | _ => simp only [rename, map, traverse, h, relabel_bind_id, relabel_pure, id]

@[simp] theorem Instruction.operands_rename (i : Instruction Local) :
    (i.rename σ).operands = i.operands.map (Local.rename σ) := by
  cases i with
  | branch comparison a b => cases b <;> rfl
  | _ => rfl

@[simp] theorem Instruction.flow_rename (i : Instruction Local) : (i.rename σ).flow = i.flow :=
  flow_map _ i

@[simp] theorem Instruction.canThrow_rename (i : Instruction Local) :
    (i.rename σ).canThrow = i.canThrow := by
  cases i <;> rfl

end Results

section Statements

variable {σ : BodyId → BodyId}

@[simp] theorem Local.type_rename (x : Local) : (x.rename σ).type = x.type := rfl

theorem Call.receiver?_rename (call : Call) :
    (call.rename σ).receiver? = call.receiver?.map (Local.rename σ) := by
  cases call <;> rfl

/-- A check whose error shows no handle. -/
def Untagged (σ : BodyId → BodyId) (check : Except Error Unit) : Prop := relabel σ id check = check

theorem Untagged.relabel_bind {check : Except Error Unit} (h : Untagged σ check)
    {k : Unit → Except Error γ} {g : γ → δ} :
    relabel σ g (check >>= k) = check >>= fun u => relabel σ g (k u) := by
  rw [relabel_bind_id, h]

theorem Untagged.bind {check : Except Error Unit} (h : Untagged σ check)
    {next : Unit → Except Error Unit} (hnext : ∀ u, Untagged σ (next u)) :
    Untagged σ (check >>= next) := by
  rw [Untagged, h.relabel_bind]
  congr 1
  funext u
  exact hnext u

namespace Typing

theorem untagged_require {holds : Bool} {e : Error} (h : e.rename σ = e) :
    Untagged σ (require holds e) := by
  cases holds with
  | true => rfl
  | false => exact congrArg Except.error h

theorem untagged_element (array found : Ty) : Untagged σ (element array found) := by
  unfold element
  split
  · rfl
  · exact untagged_require rfl

theorem untagged_branchOperand (comparison : Comparison) (found : Ty) :
    Untagged σ (branchOperand comparison found) := by
  unfold branchOperand
  split
  · exact untagged_require rfl
  · exact untagged_require rfl

theorem untagged_arguments (method : MethodId) (receiver : Option Local) (args : List Local) :
    Untagged σ (arguments method receiver args) := by
  have hargs (pairs : List (Ty × Local)) : Untagged σ
      (pairs.forM fun p => assignable .argument p.1 p.2.type) := by
    induction pairs with
    | nil => rfl
    | cons p pairs ih =>
      have hfirst : Untagged σ (assignable .argument p.1 p.2.type) := untagged_require rfl
      exact hfirst.bind fun _ => ih
  have hcount : Untagged σ (require (args.length == method.parameters.length)
      (.argumentCountMismatch method args.length)) := untagged_require rfl
  apply hcount.bind
  intro _
  cases receiver with
  | none => exact hargs _
  | some x =>
    have hreceiver : Untagged σ (assignable .receiver method.owner x.type) := untagged_require rfl
    exact hreceiver.bind fun _ => hargs _

theorem arguments_rename (method : MethodId) (receiver : Option Local) (args : List Local) :
    arguments method (receiver.map (Local.rename σ)) (args.map (Local.rename σ)) =
      arguments method receiver args := by
  have hzip : method.parameters.zip (args.map (Local.rename σ)) =
      (method.parameters.zip args).map fun p => (p.1, p.2.rename σ) := by
    rw [List.zip_map_right]
    rfl
  cases receiver <;> simp [arguments, hzip]

theorem relabel_require (holds : Bool) (role : Role) (expected : Expected) (found : Found)
    (k : Unit → Except Error γ) (g : γ → δ) :
    relabel σ g (require holds (.typeMismatch role expected found) >>= k) =
      require holds (.typeMismatch role expected found) >>= fun u => relabel σ g (k u) :=
  (untagged_require rfl).relabel_bind

end Typing

namespace Statement

open Typing

theorem checkNumericCast_rename (dst src : Local) :
    checkNumericCast (dst.rename σ) (src.rename σ) =
      relabel σ (List.map (Instruction.rename σ)) (checkNumericCast dst src) := by
  simp only [checkNumericCast, primitive, mismatch, Local.type_rename, relabel_require, relabel_pure]
  rfl

theorem checkTypeCast_rename (dst src : Local) :
    checkTypeCast (dst.rename σ) (src.rename σ) =
      relabel σ (List.map (Instruction.rename σ)) (checkTypeCast dst src) := by
  simp only [checkTypeCast, reference, mismatch, Local.type_rename, relabel_require, relabel_pure]
  rfl

theorem checkResult_rename (method : MethodId) (result : Option Local) :
    checkResult method (result.map (Local.rename σ)) =
      relabel σ (List.map (Instruction.rename σ)) (checkResult method result) := by
  cases result with
  | none => rfl
  | some x =>
    simp only [checkResult, Option.map_some]
    split
    · rfl
    · simp only [assignable, mismatch, Local.type_rename, relabel_require, relabel_pure]
      rfl

theorem instructions_rename (method : MethodId) (statement : Statement) :
    (statement.rename σ).instructions method =
      relabel σ (List.map (Instruction.rename σ)) (statement.instructions method) := by
  cases statement with
  | numericCast dst src => exact checkNumericCast_rename dst src
  | typeCast dst src => exact checkTypeCast_rename dst src
  | cast dst src =>
    simp only [rename, instructions, Local.type_rename]
    by_cases hnumeric : (dst.type.isPrimitive && src.type.isPrimitive) = true
    · simp only [hnumeric, if_true, checkNumericCast_rename]
    · by_cases htype : (dst.type.isReference && src.type.isReference) = true
      · simp only [hnumeric, htype, if_true, checkTypeCast_rename]
        rfl
      · simp only [hnumeric, htype]
        rfl
  | binary op dst a b =>
    simp only [rename, instructions, same, primitive, mismatch, Local.type_rename, relabel_require]
    congr 1
    funext _
    split <;>
    · simp only [relabel_require, relabel_pure]
      rfl
  | newInstance dst target args =>
    have hargs := arguments_rename (σ := σ) target none args
    rw [Option.map_none] at hargs
    simp only [rename, instructions, assignable, mismatch, hargs, Local.type_rename, relabel_require,
      (untagged_arguments target none args).relabel_bind, relabel_pure]
    rfl
  | invoke call target result args =>
    simp only [rename, instructions, Call.receiver?_rename, arguments_rename, checkResult_rename,
      (untagged_arguments target call.receiver? args).relabel_bind]
    congr 1
    funext _
    symm
    apply relabel_bind
    intro stored
    cases call <;> rfl
  | arrayGet dst array index =>
    simp only [rename, instructions, primitive, mismatch, Local.type_rename,
      (untagged_element array.type dst.type).relabel_bind, relabel_require, relabel_pure]
    rfl
  | arrayPut array index src =>
    simp only [rename, instructions, primitive, mismatch, Local.type_rename,
      (untagged_element array.type src.type).relabel_bind, relabel_require, relabel_pure]
    rfl
  | _ =>
    simp only [rename, instructions, same, assignable, reference, primitive, Typing.array, mismatch,
      Local.type_rename, relabel_require, relabel_pure]
    rfl

end Statement

end Statements

end Dalvik
