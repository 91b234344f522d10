import Dalvik.Instruction.Basic
import Mathlib.Data.List.Forall2

/-! Replacing the operands of instructions. A replacement that succeeds keeps everything about an
instruction that can be read off its operands' images, so flow, exceptions and typing need not be
looked at again after registers took the place of variables. -/
namespace Dalvik

@[simp] theorem bind_eq_ok {x : Except ε α} {f : α → Except ε β} {b : β} :
    (x >>= f) = .ok b ↔ ∃ a, x = .ok a ∧ f a = .ok b := by
  cases x <;> simp [bind, Except.bind]

theorem bind_eq_error {x : Except ε α} {f : α → Except ε β} {e : ε} :
    (x >>= f) = .error e ↔ x = .error e ∨ ∃ a, x = .ok a ∧ f a = .error e := by
  cases x <;> simp [bind, Except.bind]

@[simp] theorem pure_eq_ok {a b : α} : (pure a : Except ε α) = .ok b ↔ a = b := by
  simp [pure, Except.pure]

@[simp] theorem map_eq_ok {x : Except ε α} {f : α → β} {b : β} :
    f <$> x = .ok b ↔ ∃ a, x = .ok a ∧ f a = b := by
  cases x <;> simp [Functor.map, Except.map]

theorem mapM_eq_ok {f : α → Except ε β} {xs : List α} {ys : List β} :
    xs.mapM f = .ok ys ↔ List.Forall₂ (fun x y => f x = .ok y) xs ys := by
  induction xs generalizing ys with
  | nil => rw [List.mapM_nil, pure_eq_ok, List.forall₂_nil_left_iff, eq_comm]
  | cons x xs ih =>
    simp only [List.mapM_cons, bind_eq_ok, pure_eq_ok, ih, List.forall₂_cons_left_iff]
    constructor
    · rintro ⟨y, hy, rest, hrest, rfl⟩
      exact ⟨y, rest, hy, hrest, rfl⟩
    · rintro ⟨y, rest, hy, hrest, rfl⟩
      exact ⟨y, hy, rest, hrest, rfl⟩

theorem forM_eq_ok {f : α → Except ε Unit} {xs : List α} {u : Unit} :
    xs.forM f = .ok u ↔ ∀ x ∈ xs, f x = .ok () := by
  induction xs with
  | nil => simp [pure, Except.pure]
  | cons x xs ih =>
    simp only [List.forM_eq_forM, List.forM_cons, bind_eq_ok, List.forall_mem_cons] at ih ⊢
    rw [ih]
    constructor
    · rintro ⟨_, h⟩
      exact h
    · exact fun h => ⟨(), h⟩

theorem forM_eq_error {f : α → Except ε Unit} {xs : List α} {e : ε}
    (h : xs.forM f = .error e) : ∃ x ∈ xs, f x = .error e := by
  induction xs with
  | nil => cases h
  | cons x xs ih =>
    simp only [List.forM_eq_forM, List.forM_cons, bind_eq_error] at h ih
    rcases h with h | ⟨_, -, h⟩
    · exact ⟨x, List.mem_cons_self, h⟩
    · obtain ⟨y, hy, hfails⟩ := ih h
      exact ⟨y, List.mem_cons_of_mem x hy, hfails⟩

theorem getElem?_of_mapM {f : α → Except ε β} {xs : List α} {ys : List β}
    (h : xs.mapM f = .ok ys) (k : Nat) (y : β) :
    ys[k]? = some y ↔ ∃ x, xs[k]? = some x ∧ f x = .ok y := by
  induction mapM_eq_ok.mp h generalizing k with
  | nil => simp
  | @cons x y' xs ys hx _ ih =>
    cases k with
    | zero =>
      simp only [List.getElem?_cons_zero, Option.some.injEq, exists_eq_left', hx, Except.ok.injEq]
    | succ k => simpa using ih (mapM_eq_ok.mpr ‹_›) k

theorem mapM_congr {f g : α → Except ε β} {xs : List α} (h : ∀ x ∈ xs, f x = g x) :
    xs.mapM f = xs.mapM g := by
  induction xs with
  | nil => rfl
  | cons x xs ih =>
    rw [List.mapM_cons, List.mapM_cons, h x List.mem_cons_self,
      ih fun y hy => h y (List.mem_cons_of_mem x hy)]

theorem length_of_mapM {f : α → Except ε β} {xs : List α} {ys : List β}
    (h : xs.mapM f = .ok ys) : ys.length = xs.length :=
  (mapM_eq_ok.mp h).length_eq.symm

theorem map_of_mapM {f : α → Except ε β} {g : α → γ} {k : β → γ}
    (agree : ∀ x y, f x = .ok y → k y = g x) {xs : List α} {ys : List β}
    (h : xs.mapM f = .ok ys) : ys.map k = xs.map g := by
  induction mapM_eq_ok.mp h with
  | nil => rfl
  | cons hx hrest ih =>
    rw [List.map_cons, List.map_cons, agree _ _ hx, ih (mapM_eq_ok.mpr hrest)]

def failure? : Except ε α → Option ε
  | .ok _ => none
  | .error e => some e

theorem failure?_eq_some {x : Except ε α} {e : ε} : failure? x = some e ↔ x = .error e := by
  cases x <;> simp [failure?]

theorem failure?_eq_none {x : Except ε α} : failure? x = none ↔ ∃ a, x = .ok a := by
  cases x <;> simp [failure?]

@[simp] theorem failure?_map (f : α → β) (x : Except ε α) : failure? (f <$> x) = failure? x := by
  cases x <;> rfl

theorem failure?_mapM (f : α → Except ε β) (xs : List α) :
    failure? (xs.mapM f) = xs.findSome? fun x => failure? (f x) := by
  induction xs with
  | nil => rfl
  | cons x xs ih =>
    rw [List.mapM_cons, List.findSome?_cons, ← ih]
    cases f x with
    | error e => rfl
    | ok y => cases xs.mapM f <;> rfl

instance : Typed Ty := ⟨id⟩

namespace Instruction

def map (g : R → S) : Instruction R → Instruction S
  | moveParameter dst index => moveParameter (g dst) index
  | move dst src => move (g dst) (g src)
  | const dst value => const (g dst) value
  | unary op dst src => unary op (g dst) (g src)
  | binary op dst a b => binary op (g dst) (g a) (g b)
  | numericCast dst src => numericCast (g dst) (g src)
  | checkCast dst src type => checkCast (g dst) (g src) type
  | instanceOf dst src type => instanceOf (g dst) (g src) type
  | compareLongs dst a b => compareLongs (g dst) (g a) (g b)
  | compareFloats bias dst a b => compareFloats bias (g dst) (g a) (g b)
  | instanceGet field dst object => instanceGet field (g dst) (g object)
  | instancePut field object src => instancePut field (g object) (g src)
  | staticGet field dst => staticGet field (g dst)
  | staticPut field src => staticPut field (g src)
  | newInstance dst type => newInstance (g dst) type
  | invoke kind method args => invoke kind method (args.map g)
  | moveResult dst => moveResult (g dst)
  | newArray dst length => newArray (g dst) (g length)
  | arrayLength dst array => arrayLength (g dst) (g array)
  | arrayGet dst array index => arrayGet (g dst) (g array) (g index)
  | arrayPut array index src => arrayPut (g array) (g index) (g src)
  | monitorEnter object => monitorEnter (g object)
  | monitorExit object => monitorExit (g object)
  | goto => goto
  | branch comparison a b => branch comparison (g a) (b.map g)
  | returnVoid => returnVoid
  | returnValue value => returnValue (g value)
  | raise value => raise (g value)

def isMoveParameter : Instruction R → Bool
  | moveParameter .. => true
  | _ => false

theorem map_of_traverse {f : R → Except ε S} {g : R → T} {k : S → T}
    (agree : ∀ x y, f x = .ok y → k y = g x) {i : Instruction R} {j : Instruction S}
    (h : i.traverse f = .ok j) : j.map k = i.map g := by
  cases i with
  | invoke kind method args =>
    simp only [traverse, bind_eq_ok, pure_eq_ok] at h
    obtain ⟨replaced, hargs, rfl⟩ := h
    simp only [map, map_of_mapM agree hargs]
  | branch comparison a b =>
    cases b with
    | none =>
      simp only [traverse, bind_eq_ok, pure_eq_ok] at h
      grind [map]
    | some b =>
      simp only [traverse, bind_eq_ok, pure_eq_ok] at h
      grind [map]
  | _ =>
    simp only [traverse, bind_eq_ok, pure_eq_ok] at h
    grind [map]

/-- Operands are replaced in the order in which they are listed, and no others are. -/
theorem operands_traverse (f : R → Except ε S) (i : Instruction R) :
    operands <$> i.traverse f = i.operands.mapM f := by
  cases i with
  | branch comparison a b => cases b <;> simp [traverse, operands]
  | _ => simp [traverse, operands]

theorem traverse_eq_error {f : R → Except ε S} {i : Instruction R} {e : ε} :
    i.traverse f = .error e ↔ i.operands.mapM f = .error e := by
  rw [← operands_traverse]
  cases i.traverse f <;> simp [Functor.map, Except.map]

theorem failure?_traverse (f : R → Except ε S) (i : Instruction R) :
    failure? (i.traverse f) = i.operands.findSome? fun x => failure? (f x) := by
  rw [← failure?_mapM, ← operands_traverse, failure?_map]

theorem exists_traverse_eq_ok {f : R → Except ε S} {i : Instruction R} :
    (∃ j, i.traverse f = .ok j) ↔ ∀ x ∈ i.operands, ∃ y, f x = .ok y := by
  simp only [← failure?_eq_none, failure?_traverse, List.findSome?_eq_none_iff]

def FlowsBy (i : Instruction R) : Flow → Prop
  | .goto => i = goto
  | .branch => ∃ comparison a b, i = branch comparison a b
  | .leave => i = returnVoid ∨ ∃ value, i = returnValue value
  | .raise => ∃ value, i = raise value
  | .next => i ≠ goto ∧ (∀ comparison a b, i ≠ branch comparison a b) ∧ i ≠ returnVoid ∧
      (∀ value, i ≠ returnValue value) ∧ ∀ value, i ≠ raise value

theorem flow_eq_iff {i : Instruction R} {flow : Flow} : i.flow = flow ↔ i.FlowsBy flow := by
  constructor
  · rintro rfl
    cases i <;> simp [FlowsBy, Instruction.flow]
  · cases flow with
    | goto =>
      rintro rfl
      rfl
    | branch =>
      rintro ⟨comparison, a, b, rfl⟩
      rfl
    | leave => rintro (rfl | ⟨value, rfl⟩) <;> rfl
    | raise =>
      rintro ⟨value, rfl⟩
      rfl
    | next =>
      rintro ⟨goto, branch, returnVoid, returnValue, raise⟩
      cases i with
      | goto => exact absurd rfl goto
      | branch comparison a b => exact absurd rfl (branch comparison a b)
      | returnVoid => exact absurd rfl returnVoid
      | returnValue value => exact absurd rfl (returnValue value)
      | raise value => exact absurd rfl (raise value)
      | _ => rfl

@[simp] theorem flow_map (g : R → S) (i : Instruction R) : (i.map g).flow = i.flow := by
  cases i <;> rfl

@[simp] theorem isMoveParameter_map (g : R → S) (i : Instruction R) :
    (i.map g).isMoveParameter = i.isMoveParameter := by
  cases i <;> rfl

theorem canThrow_map_type [Typed R] (i : Instruction R) :
    (i.map (Typed.type : R → Ty)).canThrow = i.canThrow := by
  cases i <;> rfl

theorem flow_of_isMoveParameter {i : Instruction R} (h : i.isMoveParameter = true) :
    i.flow = .next := by
  cases i with
  | moveParameter dst index => rfl
  | _ => cases h

/-- An instruction without its operands: its kind, whatever else it holds, and how many operands
there are. -/
def shape (i : Instruction R) : Instruction Unit := i.map fun _ => ()

variable {f : R → Except ε S} {i : Instruction R} {j : Instruction S}

theorem shape_of_traverse (h : i.traverse f = .ok j) : j.shape = i.shape :=
  map_of_traverse (fun _ _ _ => rfl) h

theorem flow_of_traverse (h : i.traverse f = .ok j) : j.flow = i.flow :=
  calc j.flow
    _ = j.shape.flow := (flow_map _ j).symm
    _ = i.shape.flow := by rw [shape_of_traverse h]
    _ = i.flow := flow_map _ i

theorem isMoveParameter_of_traverse (h : i.traverse f = .ok j) :
    j.isMoveParameter = i.isMoveParameter :=
  calc j.isMoveParameter
    _ = j.shape.isMoveParameter := (isMoveParameter_map _ j).symm
    _ = i.shape.isMoveParameter := by rw [shape_of_traverse h]
    _ = i.isMoveParameter := isMoveParameter_map _ i

variable [Typed R] [Typed S]

def KeepsTypes (f : R → Except ε S) : Prop :=
  ∀ x y, f x = .ok y → (Typed.type y : Ty) = Typed.type x

theorem types_of_traverse (keeps : KeepsTypes f) (h : i.traverse f = .ok j) :
    j.map (Typed.type : S → Ty) = i.map Typed.type :=
  map_of_traverse keeps h

theorem canThrow_of_traverse (keeps : KeepsTypes f) (h : i.traverse f = .ok j) :
    j.canThrow = i.canThrow := by
  rw [← canThrow_map_type j, types_of_traverse keeps h, canThrow_map_type]

end Instruction
end Dalvik
