import Dalvik.Proofs.Traversal

/-! Listing the operands of an instruction and replacing them are two views of one thing. An instruction
is its shape and its operands, and a replacement keeps the one and goes through the other in order; so
what it comes to, which error it stops with included, is what it comes to on the list of operands. -/
namespace Dalvik

theorem mapM_of_mapM {f : α → Except ε β} {g : β → Except ε γ} {xs : List α} {ys : List β}
    (h : xs.mapM f = .ok ys) : ys.mapM g = xs.mapM fun x => f x >>= g := by
  induction mapM_eq_ok.mp h with
  | nil => rfl
  | cons hx hrest ih =>
    rw [List.mapM_cons, List.mapM_cons, hx, ih (mapM_eq_ok.mpr hrest)]
    rfl

theorem map_ok_eq_map_iff {f : α → Except ε β} {xs : List α} {ys : List β} :
    ys.map .ok = xs.map f ↔ xs.mapM f = .ok ys := by
  rw [mapM_eq_ok, eq_comm, ← List.forall₂_eq_eq_eq, List.forall₂_map_left_iff,
    List.forall₂_map_right_iff]

namespace Instruction

def refill : Instruction Unit → List R → Option (Instruction R)
  | moveParameter _ index, [dst] => some (moveParameter dst index)
  | move _ _, [dst, src] => some (move dst src)
  | const _ value, [dst] => some (const dst value)
  | unary op _ _, [dst, src] => some (unary op dst src)
  | binary op _ _ _, [dst, a, b] => some (binary op dst a b)
  | numericCast _ _, [dst, src] => some (numericCast dst src)
  | checkCast _ _ type, [dst, src] => some (checkCast dst src type)
  | instanceOf _ _ type, [dst, src] => some (instanceOf dst src type)
  | compareLongs _ _ _, [dst, a, b] => some (compareLongs dst a b)
  | compareFloats bias _ _ _, [dst, a, b] => some (compareFloats bias dst a b)
  | instanceGet field _ _, [dst, object] => some (instanceGet field dst object)
  | instancePut field _ _, [object, src] => some (instancePut field object src)
  | staticGet field _, [dst] => some (staticGet field dst)
  | staticPut field _, [src] => some (staticPut field src)
  | newInstance _ type, [dst] => some (newInstance dst type)
  | invoke kind method _, args => some (invoke kind method args)
  | moveResult _, [dst] => some (moveResult dst)
  | newArray _ _, [dst, length] => some (newArray dst length)
  | arrayLength _ _, [dst, array] => some (arrayLength dst array)
  | arrayGet _ _ _, [dst, array, index] => some (arrayGet dst array index)
  | arrayPut _ _ _, [array, index, src] => some (arrayPut array index src)
  | monitorEnter _, [object] => some (monitorEnter object)
  | monitorExit _, [object] => some (monitorExit object)
  | goto, [] => some goto
  | branch comparison _ none, [a] => some (branch comparison a none)
  | branch comparison _ (some _), [a, b] => some (branch comparison a (some b))
  | returnVoid, [] => some returnVoid
  | returnValue _, [value] => some (returnValue value)
  | raise _, [value] => some (raise value)
  | _, _ => none

theorem refill_shape (i : Instruction R) : i.shape.refill i.operands = some i := by
  cases i with
  | branch comparison a b => cases b <;> rfl
  | _ => rfl

theorem eq_of_shape_of_operands {i j : Instruction R} (hshape : i.shape = j.shape)
    (hoperands : i.operands = j.operands) : i = j := by
  apply Option.some.inj
  rw [← refill_shape i, hshape, hoperands, refill_shape]

section Laws

variable {f : R → Except ε S} {g : S → Except ε T} {i : Instruction R} {j : Instruction S}

theorem traverse_eq_ok :
    i.traverse f = .ok j ↔ j.shape = i.shape ∧ i.operands.mapM f = .ok j.operands := by
  rw [← operands_traverse, map_eq_ok]
  constructor
  · intro h
    exact ⟨shape_of_traverse h, j, h, rfl⟩
  · rintro ⟨hshape, k, hk, hoperands⟩
    obtain rfl := eq_of_shape_of_operands ((shape_of_traverse hk).trans hshape.symm) hoperands
    exact hk

theorem traverse_eq_error_iff {e : ε} : i.traverse f = .error e ↔
    ∃ before x after, i.operands = before ++ x :: after ∧ f x = .error e ∧
      ∀ y ∈ before, ∃ z, f y = .ok z := by
  simp only [← failure?_eq_some, ← failure?_eq_none, failure?_traverse, List.findSome?_eq_some_iff]

theorem traverse_ok : i.traverse (.ok : R → Except ε R) = .ok i := by
  rw [traverse_eq_ok, ← map_ok_eq_map_iff]
  exact ⟨rfl, rfl⟩

theorem traverse_of_traverse (h : i.traverse f = .ok j) :
    j.traverse g = i.traverse fun x => f x >>= g := by
  obtain ⟨hshape, hoperands⟩ := traverse_eq_ok.mp h
  have hboth : j.operands.mapM g = i.operands.mapM fun x => f x >>= g := mapM_of_mapM hoperands
  cases hj : j.traverse g with
  | error e =>
    rw [traverse_eq_error, hboth, ← traverse_eq_error] at hj
    exact hj.symm
  | ok k =>
    rw [traverse_eq_ok, hboth, hshape, ← traverse_eq_ok] at hj
    exact hj.symm

theorem toOption_traverse_bind :
    (i.traverse f >>= (·.traverse g)).toOption = (i.traverse fun x => f x >>= g).toOption := by
  cases h : i.traverse f with
  | ok j => exact congrArg Except.toOption (traverse_of_traverse h)
  | error e =>
    -- both in one fail too, if not before then at the operand that `f` refuses
    obtain ⟨before, x, after, hoperands, hx, -⟩ := traverse_eq_error_iff.mp h
    cases hboth : i.traverse fun x => f x >>= g with
    | error e' => rfl
    | ok k =>
      obtain ⟨z, hz⟩ := exists_traverse_eq_ok.mp ⟨k, hboth⟩ x (by simp [hoperands])
      rw [hx] at hz
      cases hz

end Laws

/-- How a replacement of the operands of `i` by `f`, and then by `g`, shows in the list of operands. -/
structure Operandwise (f : R → Except ε S) (g : S → Except ε T) (i : Instruction R) : Prop where
  succeeds_iff : (∃ j, i.traverse f = .ok j) ↔ ∀ x ∈ i.operands, ∃ y, f x = .ok y
  /-- The error is that of the first operand that `f` refuses. -/
  error_iff (e : ε) : i.traverse f = .error e ↔
    ∃ before x after, i.operands = before ++ x :: after ∧ f x = .error e ∧
      ∀ y ∈ before, ∃ z, f y = .ok z
  /-- The result is the instruction of the same shape whose operands are the images, place by place. -/
  ok_iff (j : Instruction S) : i.traverse f = .ok j ↔
    j.shape = i.shape ∧ j.operands.map .ok = i.operands.map f
  flow_eq (j : Instruction S) : i.traverse f = .ok j → j.flow = i.flow
  canThrow_eq [Typed R] [Typed S] (j : Instruction S) :
    KeepsTypes f → i.traverse f = .ok j → j.canThrow = i.canThrow
  identity : i.traverse (.ok : R → Except ε R) = .ok i
  /-- As partial maps, one replacement after the other is both in one. -/
  composition : (i.traverse f >>= (·.traverse g)).toOption = (i.traverse fun x => f x >>= g).toOption
  /-- Once `f` has succeeded, `g` also fails as both in one do. Where `f` fails, both in one fail too, but
  they may stop at an earlier operand, whose image `g` refuses. -/
  resumption (j : Instruction S) : i.traverse f = .ok j →
    j.traverse g = i.traverse fun x => f x >>= g

/-- Listing and replacing agree on every instruction: they go through the same operands in the same
order, and nothing but the operands changes. -/
theorem traverse_operandwise (f : R → Except ε S) (g : S → Except ε T) (i : Instruction R) :
    Operandwise f g i where
  succeeds_iff := exists_traverse_eq_ok
  error_iff _ := traverse_eq_error_iff
  ok_iff _ := by rw [map_ok_eq_map_iff, traverse_eq_ok]
  flow_eq _ := flow_of_traverse
  canThrow_eq _ := canThrow_of_traverse
  identity := traverse_ok
  composition := toOption_traverse_bind
  resumption _ := traverse_of_traverse

end Instruction

namespace Relocation

def shift (r : Register) : Except UInt16 Register :=
  if r.number < 6 then .ok { r with number := r.number + 2 } else .error r.number

theorem shift_keepsTypes : Instruction.KeepsTypes shift := by
  intro x y h
  unfold shift at h
  split at h
  · cases h
    rfl
  · cases h

def quotient (n : UInt16) : Instruction Register :=
  .binary .divide ⟨n, .int⟩ ⟨n + 2, .int⟩ ⟨n + 4, .int⟩

/-- The quotient can be moved once, but not twice: its divisor then lies too high. -/
theorem quotient_moved :
    Instruction.KeepsTypes shift ∧ (quotient 0).traverse shift = .ok (quotient 2) ∧
      (quotient 2).canThrow = (quotient 0).canThrow ∧
      (quotient 0).traverse (fun r => shift r >>= shift) = .error 6 :=
  have law := (quotient 0).traverse_operandwise shift shift
  have twice : (quotient 2).traverse shift = .error 6 := rfl
  ⟨shift_keepsTypes, rfl, law.canThrow_eq (quotient 2) shift_keepsTypes rfl,
    (law.resumption (quotient 2) rfl).symm.trans twice⟩

def spell (r : Register) : Except UInt16 String :=
  if r.number < 5 then .ok ("r" ++ toString r.number.toNat) else .error r.number

/-- Refuses the odd registers that lie outside of the frame, and no others. -/
def refuseOdd (r : Register) : Except UInt16 Register :=
  if r.number < 5 || r.number % 2 == 0 then .ok r else .error r.number

theorem refuseOdd_bind_spell (r : Register) : (refuseOdd r >>= spell) = spell r := by
  unfold refuseOdd
  split
  · rfl
  · rename_i outside
    rw [Bool.or_eq_true, not_or, decide_eq_true_eq] at outside
    rw [spell, if_neg outside.1]
    rfl

/-- Both registers of the copy lie outside of the frame. One replacement after the other stops at the
source, which the first of them refuses, and both in one stop at the destination. -/
theorem copy_stopped_elsewhere :
    let copy : Instruction Register := .move ⟨10, .int⟩ ⟨11, .int⟩
    (copy.traverse refuseOdd >>= (·.traverse spell)) = .error 11 ∧
      (copy.traverse fun r => refuseOdd r >>= spell) = .error 10 ∧
      (∀ r, (refuseOdd r >>= spell) = spell r) :=
  ⟨rfl, rfl, refuseOdd_bind_spell⟩

end Relocation
end Dalvik
