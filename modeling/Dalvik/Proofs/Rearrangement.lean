import Mathlib.Data.List.FinRange
import Mathlib.Data.List.Sort

/-! Lists in another order. A rearrangement that keeps the order of linked elements does not change a
selection of elements that are all linked, nor what is before an element in it. -/
namespace Dalvik

variable {α : Type} {xs : List α}

def rearranged (xs : List α) (π : Equiv.Perm (Fin xs.length)) : List α :=
  List.ofFn fun i => xs.get (π i)

def Keeps (linked : α → α → Prop) (xs : List α) (π : Equiv.Perm (Fin xs.length)) : Prop :=
  ∀ i j, i < j → linked (xs.get (π i)) (xs.get (π j)) → π i < π j

instance (linked : α → α → Prop) [DecidableRel linked] (xs : List α)
    (π : Equiv.Perm (Fin xs.length)) : Decidable (Keeps linked xs π) :=
  inferInstanceAs (Decidable (∀ i j, i < j → linked (xs.get (π i)) (xs.get (π j)) → π i < π j))

variable {π : Equiv.Perm (Fin xs.length)}

theorem rearranged_perm : (rearranged xs π).Perm xs := by
  have h := Equiv.Perm.ofFn_comp_perm π xs.get
  rwa [List.ofFn_get] at h

theorem rearranged_eq : rearranged xs π = ((List.finRange xs.length).map π).map xs.get := by
  rw [rearranged, List.ofFn_eq_map, List.map_map]
  rfl

theorem getElem?_rearranged (i : Fin xs.length) : (rearranged xs π)[i.val]? = some (xs.get (π i)) := by
  simp [rearranged]

theorem filter_take_of_nodup [DecidableEq α] {n : Nat} {x : α} (distinct : xs.Nodup)
    (hx : xs[n]? = some x) {p : α → Bool} (hp : p x = true) :
    (xs.take n).filter p = (xs.filter p).takeWhile (· ≠ x) := by
  induction xs generalizing n with
  | nil => simp at hx
  | cons y ys ih =>
    rw [List.nodup_cons] at distinct
    cases n with
    | zero =>
      obtain rfl : y = x := by simpa using hx
      simp [hp]
    | succ n =>
      have hmem : x ∈ ys := List.mem_of_getElem? (by simpa using hx)
      have hne : y ≠ x := fun same => distinct.1 (same ▸ hmem)
      rw [List.take_succ_cons]
      by_cases hy : p y = true
      · rw [List.filter_cons_of_pos hy, List.filter_cons_of_pos hy, ih distinct.2 (by simpa using hx)]
        simp [hne]
      · rw [List.filter_cons_of_neg hy, List.filter_cons_of_neg hy, ih distinct.2 (by simpa using hx)]

section Selection

variable {linked : α → α → Prop} {p : α → Bool} (keeps : Keeps linked xs π)
  (hlinked : ∀ x y, p x = true → p y = true → linked x y)
include keeps hlinked

theorem filter_positions : ((List.finRange xs.length).map π).filter (p ∘ xs.get) =
    (List.finRange xs.length).filter (p ∘ xs.get) := by
  have hold : ((List.finRange xs.length).filter (p ∘ xs.get)).Pairwise (· < ·) :=
    List.Pairwise.filter _ (List.pairwise_lt_finRange _)
  have hnew : (((List.finRange xs.length).map π).filter (p ∘ xs.get)).Pairwise (· < ·) := by
    rw [List.pairwise_filter, List.pairwise_map]
    apply List.Pairwise.imp _ (List.pairwise_lt_finRange _)
    intro i j hij hi hj
    exact keeps i j hij (hlinked _ _ hi hj)
  apply List.Perm.eq_of_pairwise _ hnew hold
  · exact (Equiv.Perm.map_finRange_perm π).filter _
  · intro i j _ _ hij hji
    exact absurd hij (Fin.not_lt.mpr (Fin.le_of_lt hji))

theorem filter_rearranged : (rearranged xs π).filter p = xs.filter p := by
  have h := congrArg (List.map xs.get) (filter_positions keeps hlinked)
  rw [← List.filter_map, ← List.filter_map, ← rearranged_eq, List.map_get_finRange] at h
  exact h

theorem filter_take_rearranged (i : Fin xs.length) (hi : p (xs.get (π i)) = true) :
    ((rearranged xs π).take i).filter p = (xs.take (π i)).filter p := by
  have hnew : ((rearranged xs π).take i).filter p =
      ((((List.finRange xs.length).map π).take i).filter (p ∘ xs.get)).map xs.get := by
    rw [rearranged_eq, ← List.map_take, List.filter_map]
  have hold : (xs.take (π i)).filter p =
      (((List.finRange xs.length).take (π i)).filter (p ∘ xs.get)).map xs.get := by
    rw [← List.filter_map, List.map_take, List.map_get_finRange]
  have hdistinct : ((List.finRange xs.length).map π).Nodup :=
    (List.nodup_finRange _).map π.injective
  rw [hnew, hold, filter_take_of_nodup hdistinct (x := π i) (by simp) hi,
    filter_take_of_nodup (List.nodup_finRange _) (x := π i) (by simp) hi,
    filter_positions keeps hlinked]

end Selection
end Dalvik
