import Dalvik.Typing
import Mathlib.Data.List.Basic
import Mathlib.Logic.Function.Iterate

/-! How descriptors start, and arrays: the descriptor of an array without its first bracket is that of
its cells. -/
namespace Dalvik

theorem Primitive.ofCode?_code (p : Primitive) : ofCode? p.code = some p := by
  cases p <;> rfl

theorem Primitive.code_ne_class (p : Primitive) : p.code ≠ 'L' := by
  cases p <;> decide

theorem Primitive.code_ne_bracket (p : Primitive) : p.code ≠ '[' := by
  cases p <;> decide

theorem Primitive.code_ne_void (p : Primitive) : p.code ≠ 'V' := by
  cases p <;> decide

theorem RefType.head_chars (r : RefType) : r.chars.head? = some 'L' ∨ r.chars.head? = some '[' := by
  cases r with
  | object name => exact .inl rfl
  | array additional element => exact .inr (by simp [chars, List.replicate_succ])

theorem ValueType.chars_array (v : ValueType) : v.array.chars = '[' :: v.chars := by
  cases v with
  | primitive p => rfl
  | reference r => cases r <;> simp [array, chars, RefType.chars, Element.chars, List.replicate_succ]

theorem ValueType.chars_iterate_array (v : ValueType) (n : Nat) :
    (array^[n] v).chars = List.replicate n '[' ++ v.chars := by
  induction n with
  | zero => rfl
  | succ n ih =>
    rw [Function.iterate_succ_apply', chars_array, ih]
    rfl

theorem Ty.isArray_iff {t : Ty} : t.isArray = true ↔ ∃ v : ValueType, t = .value v.array := by
  constructor
  · intro h
    match t, h with
    | .value (.reference (.array 0 (.primitive p))), _ => exact ⟨.primitive p, rfl⟩
    | .value (.reference (.array 0 (.object name))), _ => exact ⟨.reference (.object name), rfl⟩
    | .value (.reference (.array (n + 1) element)), _ =>
      exact ⟨.reference (.array n element), rfl⟩
  · rintro ⟨v, rfl⟩
    match v with
    | .primitive p => rfl
    | .reference (.object name) => rfl
    | .reference (.array n element) => rfl

theorem Ty.elementChars?_array (v : ValueType) :
    (Ty.value v.array).elementChars? = some v.chars := by
  rw [elementChars?, if_pos (isArray_iff.mpr ⟨v, rfl⟩)]
  simp [Ty.chars, ValueType.chars_array]

theorem isReferenceCell_iff {v : ValueType} :
    Typing.isReferenceCell v.chars = (Ty.value v).isReference := by
  cases v with
  | primitive p =>
    simp [Typing.isReferenceCell, ValueType.chars, Primitive.chars, Ty.isReference,
      p.code_ne_class, p.code_ne_bracket]
  | reference r =>
    obtain h | h := r.head_chars <;> simp [Typing.isReferenceCell, ValueType.chars, Ty.isReference, h]

end Dalvik
