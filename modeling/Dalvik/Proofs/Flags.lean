import Dalvik.AccessFlags
import Mathlib.Logic.Basic

/-! Sets of flags as sets of bits. A single flag is had as a whole or not at all, so what is asked of flags
taken together is asked of each of them. -/
namespace Dalvik

namespace AccessFlags

variable {a b c : AccessFlags} {k : Nat}

def has (a : AccessFlags) (k : Nat) : Bool := a.bits.getLsbD k

theorem has_union : (a.union b).has k = (a.has k || b.has k) := BitVec.getLsbD_or

theorem has_diff : (a.diff b).has k = (a.has k && !b.has k) := by
  by_cases hk : k < 32
  · simp [has, diff, hk]
  · simp [has, diff, BitVec.getLsbD_of_ge _ k (Nat.le_of_not_lt hk)]

theorem contains_iff : a.contains b = true ↔ ∀ k, b.has k = true → a.has k = true := by
  rw [contains, beq_iff_eq]
  constructor
  · intro h k hk
    rw [has, ← h, BitVec.getLsbD_and, Bool.and_eq_true] at hk
    exact hk.1
  · intro h
    apply BitVec.eq_of_getLsbD_eq
    intro k _
    rw [BitVec.getLsbD_and, Bool.and_eq_right_iff_imp]
    exact h k

theorem intersects_iff : a.intersects b = true ↔ ∃ k, a.has k = true ∧ b.has k = true := by
  rw [intersects, bne_iff_ne, ne_eq, ← not_forall_not, not_iff_not]
  constructor
  · intro h k hk
    have hbit : (a.bits &&& b.bits).getLsbD k = true := by
      rw [BitVec.getLsbD_and, Bool.and_eq_true]
      exact hk
    simp [h] at hbit
  · intro h
    apply BitVec.eq_of_getLsbD_eq
    intro k _
    simpa [has] using h k

theorem isEmpty_diff : (a.diff b).isEmpty = true ↔ b.contains a = true := by
  have hempty : (a.diff b).isEmpty = true ↔ ∀ k, (a.diff b).has k = false := by
    rw [isEmpty, beq_iff_eq]
    constructor
    · intro h k
      rw [has, h]
      exact BitVec.getLsbD_zero
    · exact fun h => BitVec.eq_of_getLsbD_eq fun k _ => (h k).trans BitVec.getLsbD_zero.symm
  rw [hempty, contains_iff]
  refine forall_congr' fun k => ?_
  rw [has_diff]
  cases a.has k <;> cases b.has k <;> simp

theorem contains_union :
    c.contains (a.union b) = true ↔ c.contains a = true ∧ c.contains b = true := by
  simp only [contains_iff, has_union, Bool.or_eq_true, or_imp, forall_and]

theorem union_contains_right : (a.union b).contains b = true := by
  rw [contains_iff]
  intro k hk
  rw [has_union, hk, Bool.or_true]

theorem contains_congr (h : ∀ k, c.has k = true → a.has k = b.has k) :
    a.contains c = b.contains c := by
  rw [Bool.eq_iff_iff, contains_iff, contains_iff]
  exact forall_congr' fun k => imp_congr_right fun hk => by rw [h k hk]

theorem has_eq_false (h : c.intersects b = false) (hk : c.has k = true) : b.has k = false := by
  cases hb : b.has k with
  | false => rfl
  | true =>
    rw [intersects_iff.mpr ⟨k, hk, hb⟩] at h
    cases h

theorem union_contains_of_disjoint (h : c.intersects b = false) :
    (a.union b).contains c = a.contains c :=
  contains_congr fun k hk => by rw [has_union, has_eq_false h hk, Bool.or_false]

theorem diff_contains_of_disjoint (h : c.intersects b = false) :
    (a.diff b).contains c = a.contains c :=
  contains_congr fun k hk => by rw [has_diff, has_eq_false h hk, Bool.not_false, Bool.and_true]

theorem intersects_union :
    a.intersects (b.union c) = true ↔ a.intersects b = true ∨ a.intersects c = true := by
  simp only [intersects_iff, has_union, Bool.or_eq_true, and_or_left, exists_or]

/-- A flag: one bit and no other. -/
def Single (a : AccessFlags) : Prop := ∃ k, ∀ j, a.has j = true ↔ j = k

theorem single_of_twoPow (k : Nat) (hk : k < 32) (h : a.bits = BitVec.twoPow 32 k) : a.Single := by
  refine ⟨k, fun j => ?_⟩
  simp [has, h, BitVec.getLsbD_twoPow, hk, eq_comm]

theorem Single.contains_iff_intersects (single : b.Single) :
    a.contains b = true ↔ a.intersects b = true := by
  obtain ⟨k, hk⟩ := single
  simp [contains_iff, intersects_iff, hk]

theorem single_privateAccess : privateAccess.Single := single_of_twoPow 1 (by decide) (by decide)
theorem single_static : static.Single := single_of_twoPow 3 (by decide) (by decide)
theorem single_synchronized : synchronized.Single := single_of_twoPow 5 (by decide) (by decide)
theorem single_native : native.Single := single_of_twoPow 8 (by decide) (by decide)
theorem single_abstract : abstract.Single := single_of_twoPow 10 (by decide) (by decide)
theorem single_constructor : constructor.Single := single_of_twoPow 16 (by decide) (by decide)

theorem diff_contains_self (single : b.Single) : (a.diff b).contains b = false := by
  rw [← Bool.not_eq_true, single.contains_iff_intersects, intersects_iff]
  rintro ⟨k, hk, hb⟩
  simp [has_diff, hb] at hk

theorem isBodiless_eq : a.isBodiless = (a.contains abstract || a.contains native) := by
  rw [Bool.eq_iff_iff, Bool.or_eq_true, isBodiless, intersects_union,
    single_abstract.contains_iff_intersects, single_native.contains_iff_intersects]

theorem isDirect_eq : a.isDirect =
    (a.contains static || a.contains privateAccess || a.contains constructor) := by
  rw [Bool.eq_iff_iff, Bool.or_eq_true, Bool.or_eq_true, or_assoc, isDirect, intersects_union,
    intersects_union, single_static.contains_iff_intersects,
    single_privateAccess.contains_iff_intersects, single_constructor.contains_iff_intersects]

end AccessFlags
end Dalvik
