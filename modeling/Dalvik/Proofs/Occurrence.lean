import Mathlib.Data.List.Induction
import Mathlib.Data.List.Nodup

/-! First occurrences: `List.eraseDups` keeps each element where it stands first, and where keys are
distinct the first element with a key is the only one. -/
namespace Dalvik

variable {α β : Type} [DecidableEq α] [DecidableEq β]

theorem eraseDups_concat (xs : List α) (x : α) :
    (xs ++ [x]).eraseDups = if x ∈ xs then xs.eraseDups else xs.eraseDups ++ [x] := by
  rw [List.eraseDups_append]
  by_cases h : x ∈ xs <;> simp [List.removeAll, List.eraseDups_cons, h]

theorem pairwise_eraseDups (keep : α → Bool) (xs : List α) :
    (xs.filter keep).eraseDups.Pairwise fun x y => xs.idxOf x < xs.idxOf y := by
  induction xs using List.reverseRecOn with
  | nil => simp
  | append_singleton xs x ih =>
    have hmem {y : α} (hy : y ∈ (xs.filter keep).eraseDups) : y ∈ xs :=
      List.mem_of_mem_filter (List.mem_eraseDups.mp hy)
    have hxs : (xs.filter keep).eraseDups.Pairwise
        fun y z => (xs ++ [x]).idxOf y < (xs ++ [x]).idxOf z := by
      apply ih.imp_of_mem
      intro y z hy hz h
      rwa [List.idxOf_append_of_mem (hmem hy), List.idxOf_append_of_mem (hmem hz)]
    by_cases hkeep : keep x = true
    · rw [List.filter_append, List.filter_cons_of_pos hkeep, List.filter_nil, eraseDups_concat]
      split
      · exact hxs
      · rename_i hx
        have hnew : x ∉ xs := fun h => hx (List.mem_filter.mpr ⟨h, hkeep⟩)
        rw [List.pairwise_append]
        refine ⟨hxs, List.pairwise_singleton _ _, ?_⟩
        intro y hy z hz
        obtain rfl := List.mem_singleton.mp hz
        rw [List.idxOf_append_of_mem (hmem hy), List.idxOf_append_of_notMem hnew]
        have := List.idxOf_lt_length_of_mem (hmem hy)
        omega
    · rwa [List.filter_append, List.filter_cons_of_neg hkeep, List.filter_nil, List.append_nil]

theorem nodup_eraseDups (xs : List α) : xs.eraseDups.Nodup := by
  have h := pairwise_eraseDups (fun _ => true) xs
  rw [List.filter_true] at h
  apply h.imp
  intro x y hlt same
  subst same
  exact Nat.lt_irrefl _ hlt

theorem eraseDups_map {f : α → β} (injective : f.Injective) (xs : List α) :
    (xs.map f).eraseDups = xs.eraseDups.map f := by
  induction xs using List.reverseRecOn with
  | nil => rfl
  | append_singleton xs x ih =>
    rw [List.map_append, List.map_singleton, eraseDups_concat, eraseDups_concat, ih]
    simp only [List.mem_map_of_injective injective]
    split <;> simp

theorem idxOf?_eq_some_iff_getElem? {xs : List α} (nodup : xs.Nodup) {x : α} {k : Nat} :
    xs.idxOf? x = some k ↔ xs[k]? = some x := by
  rw [List.idxOf?_eq_some_iff, List.getElem?_eq_some_iff]
  constructor
  · rintro ⟨hk, hx, -⟩
    exact ⟨hk, by simpa using hx⟩
  · rintro ⟨hk, hx⟩
    refine ⟨hk, by simpa using hx, fun j hj same => ?_⟩
    have hsame : xs[j] = xs[k] := (by simpa using same : xs[j] = x).trans hx.symm
    exact Nat.ne_of_lt hj ((nodup.getElem_inj_iff).mp hsame)

theorem find?_key_eq_some {γ : Type} {key : γ → α} {xs : List γ} (distinct : (xs.map key).Nodup)
    {k : α} {x : γ} : xs.find? (key · == k) = some x ↔ x ∈ xs ∧ key x = k := by
  have hfound {y : γ} (h : xs.find? (key · == k) = some y) : y ∈ xs ∧ key y = k :=
    ⟨List.mem_of_find?_eq_some h, by simpa using List.find?_some h⟩
  constructor
  · exact hfound
  · rintro ⟨hx, hkey⟩
    cases h : xs.find? (key · == k) with
    | none => exact absurd (List.find?_eq_none.mp h x hx) (by simp [hkey])
    | some y =>
      obtain ⟨hy, hsame⟩ := hfound h
      rw [List.inj_on_of_nodup_map distinct hy hx (hsame.trans hkey.symm)]

end Dalvik
