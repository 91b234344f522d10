import Dalvik.Assembler.Operation
import Dalvik.Proofs.RoundTrip
import Dalvik.Proofs.Traversal

/-! The typing rules of the instruction set, stated on types alone, and that the checks on
statements let through only what the rules admit. -/
namespace Dalvik

/-- Types between which a value can go: equal ones, and references. -/
def Ty.Compatible (s t : Ty) : Prop := s = t ∨ s.isReference = true ∧ t.isReference = true

def Ty.Is (t : Ty) (accepts : Primitive → Bool) : Prop := ∃ p, t = .primitive p ∧ accepts p = true

def Ty.IsInteger (t : Ty) : Prop := t = .primitive .int ∨ t = .primitive .long
def Ty.IsFloating (t : Ty) : Prop := t = .primitive .float ∨ t = .primitive .double

def Ty.IsIntLike (t : Ty) : Prop :=
  ∃ p ∈ [Primitive.boolean, .byte, .char, .short, .int], t = .primitive p

def UnaryOp.WorksOn (op : UnaryOp) (t : Ty) : Prop := t.IsInteger ∨ t.IsFloating ∧ op = .negate

/-- Integers have all operators, and other numbers those of arithmetic. -/
def BinaryOp.WorksOn (op : BinaryOp) (t : Ty) : Prop :=
  t.IsInteger ∨ t.IsFloating ∧ op ∈ [.add, .subtract, .multiply, .divide, .remainder]

/-- The second operand of a shift is an amount; that of any other operator is like the first. -/
def BinaryOp.Pairs (op : BinaryOp) (a b : Ty) : Prop :=
  (∀ direction, op = .shift direction → b = .primitive .int) ∧
    ((∀ direction, op ≠ .shift direction) → b = a)

def Ty.HasCells (array t : Ty) : Prop :=
  ∃ cell : ValueType, array = .value cell.array ∧ (Ty.value cell).Compatible t

theorem Ty.primitive?_eq_some {t : Ty} {p : Primitive} : t.primitive? = some p ↔ t = .primitive p := by
  rcases t with _ | p | _ <;> simp [primitive?, primitive]

/-- A variable of the type can hold the constant: a number or boolean has exactly the type, and anything
else is a reference. -/
def Constant.Assignable (c : Constant) (t : Ty) : Prop :=
  (∀ p, c.primitive? = some p → t = .primitive p) ∧
    (c.primitive? = none → t.isReference = true)

theorem Constant.fits_iff {c : Constant} {t : Ty} : c.fits t = true ↔ c.Assignable t := by
  unfold fits Assignable
  cases c.primitive? with
  | none => simp
  | some p => simp [Ty.primitive?_eq_some]

theorem Ty.Compatible.symm {s t : Ty} (h : s.Compatible t) : t.Compatible s := by
  obtain rfl | ⟨hs, ht⟩ := h
  · exact .inl rfl
  · exact .inr ⟨ht, hs⟩

namespace Instruction

/-- The rule that each instruction of a body of `method` obeys, over the types of its operands. -/
def WellTyped (method : MethodId) (isStatic : Bool) : Instruction Ty → Prop
  | moveParameter dst _ => dst ∈ Assembler.argumentTypes method isStatic
  | move dst src => dst = src
  | const dst value => value.Assignable dst
  | unary op dst src => dst = src ∧ op.WorksOn src
  | binary op dst a b => dst = a ∧ op.Pairs a b ∧ op.WorksOn a
  | numericCast dst src => dst.isPrimitive = true ∧ src.isPrimitive = true
  | checkCast dst src type => dst.isReference = true ∧ src.isReference = true ∧ type = dst
  | instanceOf dst src type =>
    dst = .primitive .boolean ∧ src.isReference = true ∧ type.isReference = true
  | compareLongs dst a b => dst = .primitive .int ∧ a = .primitive .long ∧ b = .primitive .long
  | compareFloats _ dst a b => dst = .primitive .int ∧ a.IsFloating ∧ b = a
  | instanceGet field dst object => dst.Compatible field.type ∧ field.owner.Compatible object
  | instancePut field object src => field.owner.Compatible object ∧ field.type.Compatible src
  | staticGet field dst => dst.Compatible field.type
  | staticPut field src => field.type.Compatible src
  | newInstance dst type => dst.Compatible type
  -- all kinds of calls but the static ones have a receiver in front of the arguments
  | invoke kind target args =>
    if kind = .static then List.Forall₂ Ty.Compatible target.parameters args
    else List.Forall₂ Ty.Compatible (target.owner :: target.parameters) args
  | moveResult dst => dst ≠ .void
  | newArray dst length => dst.isArray = true ∧ length = .primitive .int
  | arrayLength dst array => dst = .primitive .int ∧ array.isArray = true
  | arrayGet dst array index => array.HasCells dst ∧ index = .primitive .int
  | arrayPut array index src => array.HasCells src ∧ index = .primitive .int
  | monitorEnter object => object.isReference = true
  | monitorExit object => object.isReference = true
  | goto => True
  | branch comparison a b =>
    (∀ t ∈ b, t = a) ∧
      (a.IsIntLike ∨ a.isReference = true ∧ (comparison = .eq ∨ comparison = .ne))
  | returnVoid => method.returns = .void
  | returnValue value => method.returns ≠ .void ∧ value = method.returns
  | raise value => value.isReference = true

end Instruction

section Classifiers

variable {t : Ty}

theorem Primitive.isIntLike_iff {p : Primitive} :
    p.isIntLike = true ↔ p ∈ [Primitive.boolean, .byte, .char, .short, .int] := by
  cases p <;> simp [isIntLike]

theorem Ty.is_isIntLike : t.Is Primitive.isIntLike ↔ t.IsIntLike := by
  simp only [Is, IsIntLike, Primitive.isIntLike_iff, and_comm]

theorem Comparison.isEquality_iff {c : Comparison} : c.isEquality = true ↔ c = .eq ∨ c = .ne := by
  cases c <;> simp [isEquality]

theorem UnaryOp.is_accepts {op : UnaryOp} : t.Is op.accepts ↔ op.WorksOn t := by
  unfold Ty.Is WorksOn
  constructor
  · rintro ⟨p, rfl, hp⟩
    cases op <;> cases p <;> simp_all [accepts, Ty.IsInteger, Ty.IsFloating]
  · rintro ((rfl | rfl) | ⟨rfl | rfl, rfl⟩)
    all_goals exact ⟨_, rfl, rfl⟩

theorem BinaryOp.isArithmetic_iff {op : BinaryOp} :
    op.isArithmetic = true ↔ op ∈ [.add, .subtract, .multiply, .divide, .remainder] := by
  cases op <;> simp [isArithmetic]

theorem BinaryOp.is_accepts {op : BinaryOp} : t.Is op.accepts ↔ op.WorksOn t := by
  unfold Ty.Is WorksOn
  rw [← isArithmetic_iff]
  constructor
  · rintro ⟨p, rfl, hp⟩
    cases p <;> simp_all [accepts, Ty.IsInteger, Ty.IsFloating]
  · rintro ((rfl | rfl) | ⟨rfl | rfl, arithmetic⟩)
    · exact ⟨_, rfl, rfl⟩
    · exact ⟨_, rfl, rfl⟩
    · exact ⟨_, rfl, arithmetic⟩
    · exact ⟨_, rfl, arithmetic⟩

theorem BinaryOp.isShift_iff {op : BinaryOp} :
    op.isShift = true ↔ ∃ direction, op = .shift direction := by
  cases op <;> simp [isShift]

end Classifiers

namespace Typing

@[simp] theorem require_eq_ok {holds : Bool} {error : Error} {u : Unit} :
    require holds error = .ok u ↔ holds = true := by
  cases holds <;> simp [require]

@[simp] theorem same_eq_ok {role : Role} {s t : Ty} {u : Unit} :
    same role s t = .ok u ↔ s = t := by
  simp [same]

theorem fits_iff {s t : Ty} : fits s t = true ↔ s.Compatible t := by
  simp [fits, Ty.Compatible]

@[simp] theorem assignable_eq_ok {role : Role} {s t : Ty} {u : Unit} :
    assignable role s t = .ok u ↔ s.Compatible t := by
  simp [assignable, fits_iff]

@[simp] theorem reference_eq_ok {role : Role} {t : Ty} {u : Unit} :
    reference role t = .ok u ↔ t.isReference = true := by
  simp [reference]

@[simp] theorem primitive_eq_ok {role : Role} {accepts : Primitive → Bool} {t : Ty} {u : Unit} :
    primitive role accepts t = .ok u ↔ t.Is accepts := by
  rw [primitive, require_eq_ok]
  constructor
  · intro h
    match t, h with
    | .value (.primitive p), h => exact ⟨p, rfl, by simpa [Ty.primitive?] using h⟩
  · rintro ⟨p, rfl, hp⟩
    simpa [Ty.primitive, Ty.primitive?] using hp

@[simp] theorem array_eq_ok {t : Ty} {u : Unit} : array t = .ok u ↔ t.isArray = true := by
  simp [array]

theorem fitsCell_iff {v : ValueType} {t : Ty} :
    fitsCell v.chars t = true ↔ (Ty.value v).Compatible t := by
  simp only [fitsCell, isReferenceCell_iff, Bool.or_eq_true, Bool.and_eq_true, beq_iff_eq,
    Ty.Compatible]
  rw [or_comm]
  -- equal descriptors are equal types
  exact or_congr_left ⟨fun h => Ty.chars_injective (s := .value v) h, fun h => congrArg Ty.chars h⟩

@[simp] theorem element_eq_ok {s t : Ty} {u : Unit} : element s t = .ok u ↔ s.HasCells t := by
  unfold element
  constructor
  · intro h
    by_cases harray : s.isArray = true
    · obtain ⟨v, rfl⟩ := Ty.isArray_iff.mp harray
      simp only [Ty.elementChars?_array, require_eq_ok, fitsCell_iff] at h
      exact ⟨v, rfl, h⟩
    · simp [Ty.elementChars?, harray] at h
  · rintro ⟨v, rfl, h⟩
    simpa only [Ty.elementChars?_array, require_eq_ok, fitsCell_iff] using h

@[simp] theorem branchOperand_eq_ok {comparison : Comparison} {t : Ty} {u : Unit} :
    branchOperand comparison t = .ok u ↔
      t.IsIntLike ∨ t.isReference = true ∧ (comparison = .eq ∨ comparison = .ne) := by
  rw [← Ty.is_isIntLike, ← Comparison.isEquality_iff]
  unfold branchOperand
  split
  · rename_i href
    have hnot : ¬ t.Is Primitive.isIntLike := by
      rintro ⟨p, rfl, -⟩
      simp [Ty.primitive, Ty.isReference] at href
    simp [href, hnot]
  · simp [*]

theorem forM_assignable {role : Role} {types : List Ty} {args : List Local} {u : Unit} :
    ((types.zip args).forM fun (t, x) => assignable role t x.type) = .ok u ↔
      ∀ p ∈ types.zip args, p.1.Compatible p.2.type := by
  simp only [forM_eq_ok, assignable_eq_ok]

@[simp] theorem arguments_eq_ok {method : MethodId} {receiver : Option Local} {args : List Local}
    {u : Unit} :
    arguments method receiver args = .ok u ↔
      (∀ x ∈ receiver, method.owner.Compatible x.type) ∧
        List.Forall₂ Ty.Compatible method.parameters (args.map Local.type) := by
  have hargs : List.Forall₂ Ty.Compatible method.parameters (args.map Local.type) ↔
      args.length = method.parameters.length ∧
        ∀ p ∈ method.parameters.zip args, p.1.Compatible p.2.type := by
    rw [List.forall₂_map_right_iff, List.forall₂_iff_zip, eq_comm, Prod.forall]
  cases receiver with
  | none =>
    simp only [arguments, bind_eq_ok, require_eq_ok, forM_assignable, hargs, beq_iff_eq,
      Option.not_mem_none, false_implies, implies_true, true_and]
    constructor
    · rintro ⟨-, hlength, h⟩
      exact ⟨hlength, h⟩
    · rintro ⟨hlength, h⟩
      exact ⟨(), hlength, h⟩
  | some x =>
    simp only [arguments, bind_eq_ok, require_eq_ok, assignable_eq_ok, forM_assignable, hargs,
      beq_iff_eq, Option.mem_some_iff, forall_eq']
    constructor
    · rintro ⟨-, hlength, -, hx, h⟩
      exact ⟨hx, hlength, h⟩
    · rintro ⟨hx, hlength, h⟩
      exact ⟨(), hlength, (), hx, h⟩

end Typing

def Flow.hasTarget : Flow → Bool
  | goto | branch => true
  | _ => false

namespace Statement

open Typing

structure Admitted (method : MethodId) (isStatic : Bool) (i : Instruction Local) : Prop where
  typed : (i.map Local.type).WellTyped method isStatic
  plain : i.isMoveParameter = false
  unlabelled : i.flow.hasTarget = false

variable {method : MethodId} {isStatic : Bool} {is : List (Instruction Local)}

theorem isPrimitive_of_is {t : Ty} {accepts : Primitive → Bool} (h : t.Is accepts) :
    t.isPrimitive = true := by
  obtain ⟨p, rfl, -⟩ := h
  rfl

theorem eq_int_of_is {t : Ty} (h : t.Is isInt) : t = .primitive .int := by
  obtain ⟨p, rfl, hp⟩ := h
  rw [of_decide_eq_true hp]

theorem checkNumericCast_admitted {dst src : Local} (h : checkNumericCast dst src = .ok is) :
    ∀ i ∈ is, Admitted method isStatic i := by
  simp only [checkNumericCast, bind_eq_ok, primitive_eq_ok, pure_eq_ok] at h
  obtain ⟨-, hdst, -, hsrc, rfl⟩ := h
  exact List.forall_mem_singleton.mpr
    ⟨⟨isPrimitive_of_is hdst, isPrimitive_of_is hsrc⟩, rfl, rfl⟩

theorem checkTypeCast_admitted {dst src : Local} (h : checkTypeCast dst src = .ok is) :
    ∀ i ∈ is, Admitted method isStatic i := by
  simp only [checkTypeCast, bind_eq_ok, reference_eq_ok, pure_eq_ok] at h
  obtain ⟨-, hdst, -, hsrc, rfl⟩ := h
  exact List.forall_mem_singleton.mpr ⟨⟨hdst, hsrc, rfl⟩, rfl, rfl⟩

theorem checkResult_admitted {target : MethodId} {result : Option Local}
    (h : checkResult target result = .ok is) : ∀ i ∈ is, Admitted method isStatic i := by
  cases result with
  | none =>
    simp only [checkResult, pure_eq_ok] at h
    subst h
    exact List.forall_mem_nil _
  | some x =>
    simp only [checkResult] at h
    split at h
    · simp only [pure_eq_ok] at h
      subst h
      exact List.forall_mem_nil _
    · rename_i hvalue
      simp only [bind_eq_ok, assignable_eq_ok, pure_eq_ok] at h
      obtain ⟨-, hx, rfl⟩ := h
      refine List.forall_mem_singleton.mpr ⟨?_, rfl, rfl⟩
      intro hvoid
      change x.type = .void at hvoid
      obtain hsame | ⟨href, -⟩ := hx
      · simp [← hsame, hvoid, Ty.isVoid] at hvalue
      · simp [hvoid, Ty.isReference] at href

theorem invoke_wellTyped {call : Call} {target : MethodId} {args : List Local}
    (hreceiver : ∀ x ∈ call.receiver?, target.owner.Compatible x.type)
    (hargs : List.Forall₂ Ty.Compatible target.parameters (args.map Local.type)) :
    ((Instruction.invoke call.kind target (call.receiver?.toList ++ args)).map
      Local.type).WellTyped method isStatic := by
  cases call with
  | static => exact hargs
  | virtual x => exact List.Forall₂.cons (hreceiver x rfl) hargs
  | direct x => exact List.Forall₂.cons (hreceiver x rfl) hargs
  | super x => exact List.Forall₂.cons (hreceiver x rfl) hargs
  | interface x => exact List.Forall₂.cons (hreceiver x rfl) hargs

theorem instructions_admitted {statement : Statement}
    (h : statement.instructions method = .ok is) : ∀ i ∈ is, Admitted method isStatic i := by
  cases statement with
  | numericCast dst src => exact checkNumericCast_admitted h
  | typeCast dst src => exact checkTypeCast_admitted h
  | cast dst src =>
    simp only [instructions] at h
    split at h
    · exact checkNumericCast_admitted h
    · split at h
      · exact checkTypeCast_admitted h
      · cases h
  | newInstance dst target args =>
    simp only [instructions, bind_eq_ok, require_eq_ok, assignable_eq_ok, arguments_eq_ok,
      pure_eq_ok] at h
    obtain ⟨-, -, -, hdst, -, ⟨-, hargs⟩, rfl⟩ := h
    refine List.forall_mem_cons.mpr ⟨⟨hdst, rfl, rfl⟩, List.forall_mem_singleton.mpr ⟨?_, rfl, rfl⟩⟩
    -- the new object is the receiver of its initializer
    exact List.Forall₂.cons hdst.symm hargs
  | invoke call target result args =>
    simp only [instructions, bind_eq_ok, arguments_eq_ok, pure_eq_ok] at h
    obtain ⟨-, ⟨hreceiver, hargs⟩, stored, hresult, rfl⟩ := h
    exact List.forall_mem_cons.mpr
      ⟨⟨invoke_wellTyped hreceiver hargs, rfl, rfl⟩, checkResult_admitted hresult⟩
  | binary op dst a b =>
    simp only [instructions, bind_eq_ok, same_eq_ok] at h
    obtain ⟨-, hdst, h⟩ := h
    split at h
    · rename_i hshift
      simp only [bind_eq_ok, primitive_eq_ok, pure_eq_ok] at h
      obtain ⟨-, hb, -, ha, rfl⟩ := h
      refine List.forall_mem_singleton.mpr
        ⟨⟨hdst, ⟨fun _ _ => eq_int_of_is hb, fun others => ?_⟩, BinaryOp.is_accepts.mp ha⟩, rfl, rfl⟩
      obtain ⟨direction, hdirection⟩ := BinaryOp.isShift_iff.mp hshift
      exact absurd hdirection (others direction)
    · rename_i hshift
      simp only [bind_eq_ok, same_eq_ok, primitive_eq_ok, pure_eq_ok] at h
      obtain ⟨-, hb, -, ha, rfl⟩ := h
      refine List.forall_mem_singleton.mpr
        ⟨⟨hdst, ⟨fun direction h => ?_, fun _ => hb.symm⟩, BinaryOp.is_accepts.mp ha⟩, rfl, rfl⟩
      exact absurd (BinaryOp.isShift_iff.mpr ⟨direction, h⟩) hshift
  | instanceOf dst src type =>
    simp only [instructions, bind_eq_ok, primitive_eq_ok, reference_eq_ok, pure_eq_ok] at h
    obtain ⟨-, ⟨p, hdst, hp⟩, -, hsrc, -, htype, rfl⟩ := h
    rw [of_decide_eq_true hp] at hdst
    exact List.forall_mem_singleton.mpr ⟨⟨hdst, hsrc, htype⟩, rfl, rfl⟩
  | compareLongs dst a b =>
    simp only [instructions, bind_eq_ok, primitive_eq_ok, same_eq_ok, pure_eq_ok] at h
    obtain ⟨-, hdst, -, ⟨p, ha, hp⟩, -, hb, rfl⟩ := h
    rw [of_decide_eq_true hp] at ha
    exact List.forall_mem_singleton.mpr ⟨⟨eq_int_of_is hdst, ha, hb ▸ ha⟩, rfl, rfl⟩
  | compareFloats bias dst a b =>
    simp only [instructions, bind_eq_ok, primitive_eq_ok, same_eq_ok, pure_eq_ok] at h
    obtain ⟨-, hdst, -, ⟨p, ha, hp⟩, -, hb, rfl⟩ := h
    refine List.forall_mem_singleton.mpr ⟨⟨eq_int_of_is hdst, ?_, hb.symm⟩, rfl, rfl⟩
    simp only [isFloating, Bool.or_eq_true, beq_iff_eq] at hp
    obtain rfl | rfl := hp
    · exact .inl ha
    · exact .inr ha
  | returnVoid =>
    simp only [instructions, bind_eq_ok, require_eq_ok, pure_eq_ok] at h
    obtain ⟨-, hvoid, rfl⟩ := h
    refine List.forall_mem_singleton.mpr ⟨?_, rfl, rfl⟩
    change method.returns = .void
    cases hreturns : method.returns with
    | void => rfl
    | value type => simp [hreturns, Ty.isVoid] at hvoid
  | returnValue value =>
    simp only [instructions, bind_eq_ok, require_eq_ok, same_eq_ok, pure_eq_ok] at h
    obtain ⟨-, hvalue, -, hsame, rfl⟩ := h
    refine List.forall_mem_singleton.mpr ⟨⟨?_, hsame.symm⟩, rfl, rfl⟩
    intro hvoid
    simp [hvoid, Ty.isVoid] at hvalue
  | move dst src =>
    simp only [instructions, bind_eq_ok, same_eq_ok, pure_eq_ok] at h
    obtain ⟨-, hsame, rfl⟩ := h
    exact List.forall_mem_singleton.mpr ⟨hsame, rfl, rfl⟩
  | const dst value =>
    simp only [instructions, bind_eq_ok, require_eq_ok, pure_eq_ok] at h
    obtain ⟨-, hfits, rfl⟩ := h
    exact List.forall_mem_singleton.mpr ⟨Constant.fits_iff.mp hfits, rfl, rfl⟩
  | unary op dst src =>
    simp only [instructions, bind_eq_ok, same_eq_ok, primitive_eq_ok, pure_eq_ok] at h
    obtain ⟨-, hsame, -, hsrc, rfl⟩ := h
    exact List.forall_mem_singleton.mpr ⟨⟨hsame, UnaryOp.is_accepts.mp hsrc⟩, rfl, rfl⟩
  | instanceGet field dst object =>
    simp only [instructions, bind_eq_ok, assignable_eq_ok, pure_eq_ok] at h
    obtain ⟨-, hvalue, -, howner, rfl⟩ := h
    exact List.forall_mem_singleton.mpr ⟨⟨hvalue, howner⟩, rfl, rfl⟩
  | instancePut field object src =>
    simp only [instructions, bind_eq_ok, assignable_eq_ok, pure_eq_ok] at h
    obtain ⟨-, hvalue, -, howner, rfl⟩ := h
    exact List.forall_mem_singleton.mpr ⟨⟨howner, hvalue⟩, rfl, rfl⟩
  | staticGet field dst =>
    simp only [instructions, bind_eq_ok, assignable_eq_ok, pure_eq_ok] at h
    obtain ⟨-, hvalue, rfl⟩ := h
    exact List.forall_mem_singleton.mpr ⟨hvalue, rfl, rfl⟩
  | staticPut field src =>
    simp only [instructions, bind_eq_ok, assignable_eq_ok, pure_eq_ok] at h
    obtain ⟨-, hvalue, rfl⟩ := h
    exact List.forall_mem_singleton.mpr ⟨hvalue, rfl, rfl⟩
  | arrayLength dst array =>
    simp only [instructions, bind_eq_ok, primitive_eq_ok, array_eq_ok, pure_eq_ok] at h
    obtain ⟨-, hdst, -, harray, rfl⟩ := h
    exact List.forall_mem_singleton.mpr ⟨⟨eq_int_of_is hdst, harray⟩, rfl, rfl⟩
  | newArray dst length =>
    simp only [instructions, bind_eq_ok, primitive_eq_ok, array_eq_ok, pure_eq_ok] at h
    obtain ⟨-, harray, -, hlength, rfl⟩ := h
    exact List.forall_mem_singleton.mpr ⟨⟨harray, eq_int_of_is hlength⟩, rfl, rfl⟩
  | arrayGet dst array index =>
    simp only [instructions, bind_eq_ok, primitive_eq_ok, element_eq_ok, pure_eq_ok] at h
    obtain ⟨-, hcells, -, hindex, rfl⟩ := h
    exact List.forall_mem_singleton.mpr ⟨⟨hcells, eq_int_of_is hindex⟩, rfl, rfl⟩
  | arrayPut array index src =>
    simp only [instructions, bind_eq_ok, primitive_eq_ok, element_eq_ok, pure_eq_ok] at h
    obtain ⟨-, hcells, -, hindex, rfl⟩ := h
    exact List.forall_mem_singleton.mpr ⟨⟨hcells, eq_int_of_is hindex⟩, rfl, rfl⟩
  | monitorEnter object =>
    simp only [instructions, bind_eq_ok, reference_eq_ok, pure_eq_ok] at h
    obtain ⟨-, hobject, rfl⟩ := h
    exact List.forall_mem_singleton.mpr ⟨hobject, rfl, rfl⟩
  | monitorExit object =>
    simp only [instructions, bind_eq_ok, reference_eq_ok, pure_eq_ok] at h
    obtain ⟨-, hobject, rfl⟩ := h
    exact List.forall_mem_singleton.mpr ⟨hobject, rfl, rfl⟩
  | raise value =>
    simp only [instructions, bind_eq_ok, reference_eq_ok, pure_eq_ok] at h
    obtain ⟨-, hvalue, rfl⟩ := h
    exact List.forall_mem_singleton.mpr ⟨hvalue, rfl, rfl⟩

end Statement
end Dalvik
