import Dalvik.Registry
import Mathlib.Data.List.Induction
import Mathlib.Data.List.Nodup

/-! Tables in step with their index. An entry is added to both, and a value is replaced where the index
says that it stands; so the index leads from every key to the one entry under it, and from no other key
anywhere. -/
namespace Dalvik

namespace Registry

variable {κ α β : Type} [DecidableEq κ] {r : Registry κ α} {key : κ} {value : α}

/-- Every key leads to the position and to the value of the one entry that stands under it. -/
structure Coherent (r : Registry κ α) : Prop where
  position : ∀ key i, r.position? key = some i ↔ ∃ value, r.entries[i]? = some (key, value)
  found : ∀ key value, r.find? key = some value ↔ (key, value) ∈ r.entries

theorem find?_eq_some_iff : r.find? key = some value ↔
    ∃ i entry, r.position? key = some i ∧ r.entries[i]? = some entry ∧ entry.2 = value := by
  simp only [find?, Option.bind_eq_some_iff, Option.map_eq_some_iff]
  constructor
  · rintro ⟨i, hi, entry, hentry, hvalue⟩
    exact ⟨i, entry, hi, hentry, hvalue⟩
  · rintro ⟨i, entry, hi, hentry, hvalue⟩
    exact ⟨i, hi, entry, hentry, hvalue⟩

theorem coherent_of_position
    (h : ∀ key i, r.position? key = some i ↔ ∃ value, r.entries[i]? = some (key, value)) :
    r.Coherent where
  position := h
  found := by
    intro key value
    rw [find?_eq_some_iff]
    constructor
    · rintro ⟨i, entry, hi, hentry, rfl⟩
      obtain ⟨value, hvalue⟩ := (h key i).mp hi
      obtain rfl := Option.some.inj (hentry.symm.trans hvalue)
      exact List.mem_of_getElem? hentry
    · intro hmem
      obtain ⟨i, hi⟩ := List.getElem?_of_mem hmem
      exact ⟨i, (key, value), (h key i).mpr ⟨value, hi⟩, hi, rfl⟩

theorem position?_push (k : κ) :
    (r.push key value).position? k = if k = key then some r.size else r.position? k := by
  by_cases h : k = key
  · simp [position?, push, h]
  · simp [position?, push, List.lookup_cons, beq_false_of_ne h, h]

theorem find?_push (r : Registry κ α) (key : κ) (value : α) :
    (r.push key value).find? key = some value := by
  rw [find?, position?_push, if_pos rfl]
  simp [push, size]

theorem find?_of_not_contains (new : r.contains key = false) : r.find? key = none := by
  rw [contains, Option.isSome_eq_false_iff, Option.isNone_iff_eq_none] at new
  rw [find?, new, Option.bind_none]

theorem empty_coherent : (empty : Registry κ α).Coherent := by
  apply coherent_of_position
  intro key i
  simp [position?, empty]

namespace Coherent

variable (coherent : r.Coherent)
include coherent

theorem contains_iff : r.contains key = true ↔ key ∈ r.entries.map Prod.fst := by
  rw [contains, Option.isSome_iff_exists, List.mem_map]
  constructor
  · rintro ⟨i, hi⟩
    obtain ⟨value, hvalue⟩ := (coherent.position key i).mp hi
    exact ⟨(key, value), List.mem_of_getElem? hvalue, rfl⟩
  · rintro ⟨entry, hentry, rfl⟩
    obtain ⟨i, hi⟩ := List.getElem?_of_mem hentry
    exact ⟨i, (coherent.position entry.1 i).mpr ⟨entry.2, hi⟩⟩

theorem nodup : (r.entries.map Prod.fst).Nodup := by
  rw [List.nodup_iff_getElem?_ne_getElem?]
  intro i j hlt hj same
  rw [List.length_map] at hj
  have hentry := List.getElem?_eq_getElem hj
  have hsecond := (coherent.position r.entries[j].1 j).mpr ⟨_, hentry⟩
  simp only [List.getElem?_map, hentry, Option.map_some, Option.map_eq_some_iff] at same
  obtain ⟨entry, hfirst, hkey⟩ := same
  rw [← hkey, (coherent.position entry.1 i).mpr ⟨_, hfirst⟩] at hsecond
  exact Nat.ne_of_lt hlt (Option.some.inj hsecond)

theorem push (new : r.contains key = false) (value : α) : (r.push key value).Coherent := by
  have hnew : key ∉ r.entries.map Prod.fst := by
    rw [← coherent.contains_iff, new]
    exact Bool.false_ne_true
  apply coherent_of_position
  intro k i
  rw [position?_push, Registry.push]
  obtain hi | rfl | hi := Nat.lt_trichotomy i r.entries.length
  · rw [List.getElem?_append_left hi]
    split
    · subst k
      constructor
      · intro hsize
        exact absurd (Option.some.inj hsize) (Nat.ne_of_gt hi)
      · rintro ⟨other, hother⟩
        exact absurd (List.mem_map_of_mem (List.mem_of_getElem? hother)) hnew
    · exact coherent.position k i
  · rw [List.getElem?_concat_length]
    split
    · subst k
      simp [size]
    · rename_i hne
      rw [coherent.position]
      simp [Ne.symm hne]
  · have hbeyond : (r.entries ++ [(key, value)])[i]? = none := by
      rw [List.getElem?_eq_none_iff, List.length_append, List.length_singleton]
      exact hi
    rw [hbeyond]
    split
    · simp [size, Nat.ne_of_lt hi]
    · rw [coherent.position, List.getElem?_eq_none (Nat.le_of_lt hi)]

theorem position_eq_iff {i j : Nat} {entry : κ × α} (hi : r.position? key = some i)
    (hentry : r.entries[j]? = some entry) : i = j ↔ entry.1 = key := by
  constructor
  · rintro rfl
    obtain ⟨value, hvalue⟩ := (coherent.position key i).mp hi
    rw [hvalue] at hentry
    exact congrArg Prod.fst (Option.some.inj hentry).symm
  · rintro rfl
    have hj := (coherent.position entry.1 j).mpr ⟨entry.2, hentry⟩
    exact Option.some.inj (hi.symm.trans hj)

theorem put_eq (key : κ) (value : α) : r.put key value =
    { r with entries := r.entries.map fun entry =>
        if entry.1 = key then (entry.1, value) else entry } := by
  unfold put
  split
  · rename_i hnowhere
    have hkept : r.entries.map (fun entry => if entry.1 = key then (entry.1, value) else entry) =
        r.entries.map id := by
      apply List.map_congr_left
      intro entry hentry
      apply if_neg
      rintro rfl
      have hcontains := coherent.contains_iff.mpr (List.mem_map_of_mem hentry)
      rw [contains, hnowhere] at hcontains
      cases hcontains
    rw [hkept, List.map_id]
  · rename_i i hi
    congr 1
    apply List.ext_getElem?
    intro j
    rw [List.getElem?_modify, List.getElem?_map]
    cases hentry : r.entries[j]? with
    | none => rfl
    | some entry =>
      simp only [coherent.position_eq_iff hi hentry]
      rfl

end Coherent

def ofEntries (entries : List (κ × α)) : Registry κ α where
  entries := entries
  index := (entries.map Prod.fst).zipIdx.reverse

omit [DecidableEq κ] in
@[simp] theorem entries_ofEntries (entries : List (κ × α)) : (ofEntries entries).entries = entries := rfl

omit [DecidableEq κ] in
theorem push_ofEntries (entries : List (κ × α)) (key : κ) (value : α) :
    (ofEntries entries).push key value = ofEntries (entries ++ [(key, value)]) := by
  simp [ofEntries, push, size, List.zipIdx_append]

theorem contains_ofEntries (entries : List (κ × α)) (key : κ) :
    (ofEntries entries).contains key = decide (key ∈ entries.map Prod.fst) := by
  induction entries using List.reverseRecOn with
  | nil => rfl
  | append_singleton entries entry ih =>
    rw [contains] at ih
    rw [← push_ofEntries, contains, position?_push]
    by_cases h : key = entry.1
    · simp [h]
    · simp [h, ih]

theorem coherent_ofEntries {entries : List (κ × α)} (distinct : (entries.map Prod.fst).Nodup) :
    (ofEntries entries).Coherent := by
  induction entries using List.reverseRecOn with
  | nil => exact empty_coherent
  | append_singleton entries entry ih =>
    rw [List.map_append, List.map_singleton, List.nodup_append_comm, List.singleton_append,
      List.nodup_cons] at distinct
    rw [← push_ofEntries]
    exact (ih distinct.2).push (by rw [contains_ofEntries, decide_eq_false distinct.1]) entry.2

theorem put_ofEntries {entries : List (κ × α)} (distinct : (entries.map Prod.fst).Nodup) (key : κ)
    (value : α) : (ofEntries entries).put key value = ofEntries (entries.map fun entry =>
      if entry.1 = key then (entry.1, value) else entry) := by
  have hkeys : (entries.map fun entry => if entry.1 = key then (entry.1, value) else entry).map
      Prod.fst = entries.map Prod.fst := by
    rw [List.map_map]
    apply List.map_congr_left
    intro entry _
    by_cases h : entry.1 = key <;> simp [h]
  rw [(coherent_ofEntries distinct).put_eq, ofEntries, ofEntries, hkeys]

def mapValues (f : α → β) (r : Registry κ α) : Registry κ β where
  entries := r.entries.map fun entry => (entry.1, f entry.2)
  index := r.index

omit [DecidableEq κ] in
theorem mapValues_ofEntries (f : α → β) (entries : List (κ × α)) :
    (ofEntries entries).mapValues f = ofEntries (entries.map fun entry => (entry.1, f entry.2)) := by
  rw [mapValues, ofEntries, ofEntries, List.map_map]
  rfl

def tabulate (keys : List κ) (f : κ → α) : Registry κ α := ofEntries (keys.map fun key => (key, f key))

section Tabulate

variable {keys : List κ} {f g : κ → α}

omit [DecidableEq κ] in
theorem entries_tabulate : (tabulate keys f).entries = keys.map fun key => (key, f key) := rfl

omit [DecidableEq κ] in
theorem keys_tabulate : (tabulate keys f).entries.map Prod.fst = keys := by
  simp [entries_tabulate, Function.comp_def]

omit [DecidableEq κ] in
theorem tabulate_congr (h : ∀ key ∈ keys, f key = g key) : tabulate keys f = tabulate keys g := by
  unfold tabulate
  congr 1
  apply List.map_congr_left
  intro key hkey
  rw [h key hkey]

omit [DecidableEq κ] in
theorem push_tabulate (key : κ) : (tabulate keys f).push key (f key) = tabulate (keys ++ [key]) f := by
  rw [tabulate, push_ofEntries, tabulate, List.map_append, List.map_singleton]

theorem contains_tabulate (key : κ) : (tabulate keys f).contains key = decide (key ∈ keys) := by
  rw [tabulate, contains_ofEntries, decide_eq_decide]
  exact iff_of_eq (congrArg (key ∈ ·) keys_tabulate)

variable (distinct : keys.Nodup)
include distinct

theorem coherent_tabulate : (tabulate keys f).Coherent :=
  coherent_ofEntries (keys_tabulate.symm ▸ distinct)

theorem find?_tabulate (key : κ) :
    (tabulate keys f).find? key = if key ∈ keys then some (f key) else none := by
  have hfound (value : α) := (coherent_tabulate (f := f) distinct).found key value
  split
  · rename_i h
    exact (hfound (f key)).mpr (List.mem_map_of_mem h)
  · rename_i h
    rw [Option.eq_none_iff_forall_ne_some]
    intro value hvalue
    have hkey := List.mem_map_of_mem (f := Prod.fst) ((hfound value).mp hvalue)
    rw [keys_tabulate] at hkey
    exact h hkey

theorem put_tabulate (key : κ) (value : α) :
    (tabulate keys f).put key value = tabulate keys fun k => if k = key then value else f k := by
  rw [tabulate, put_ofEntries (keys_tabulate.symm ▸ distinct), tabulate, List.map_map]
  congr 1
  apply List.map_congr_left
  intro k _
  by_cases h : k = key <;> simp [h]

end Tabulate
end Registry
end Dalvik
