import Dalvik.Assembler.Operation
import Mathlib.Data.List.Basic

/-! Blocks under edits: what a look-up finds after a block was changed or added. Everything later
looks at blocks through these equations and never at the array that holds them. -/
namespace Dalvik.Assembler

variable {a : Assembler} {l m : Label} {f g : DraftBlock → DraftBlock}

theorem ownsLabel_iff : a.ownsLabel l = true ↔ l.body = a.body ∧ l.index < a.blocks.size := by
  simp [ownsLabel]

theorem eq_of_owned (hl : a.ownsLabel l = true) (hm : a.ownsLabel m = true)
    (h : l.index = m.index) : l = m := by
  obtain ⟨body, index⟩ := l
  obtain ⟨body', index'⟩ := m
  simp only [ownsLabel_iff] at hl hm h
  simp [hl.1, hm.1, h]

theorem ownsLabel_congr {b : Assembler} (hbody : b.body = a.body) (hblocks : b.blocks = a.blocks) :
    b.ownsLabel l = a.ownsLabel l := by
  rw [ownsLabel, ownsLabel, hbody, hblocks]

theorem block_congr {b : Assembler} (hblocks : b.blocks = a.blocks) : b.block l = a.block l := by
  rw [block, block, hblocks]

@[simp] theorem ownsLabel_editBlock : (a.editBlock l f).ownsLabel m = a.ownsLabel m := by
  simp [ownsLabel, editBlock]

theorem freshLabel_editBlock : (a.editBlock l f).freshLabel = a.freshLabel := by
  simp [freshLabel, editBlock]

theorem block_editBlock_self (owned : a.ownsLabel l = true) :
    (a.editBlock l f).block l = f (a.block l) := by
  have hl := (ownsLabel_iff.mp owned).2
  simp [block, editBlock, Array.getD_eq_getD_getElem?, Array.getElem_modify, hl]

theorem block_editBlock_of_ne (hl : a.ownsLabel l = true) (hm : a.ownsLabel m = true)
    (h : m ≠ l) : (a.editBlock l f).block m = a.block m := by
  have hindex : l.index ≠ m.index := fun same => h (eq_of_owned hm hl same.symm)
  simp [block, editBlock, Array.getD_eq_getD_getElem?, Array.getElem?_modify, hindex]

theorem observe_editBlock {γ : Type} (observe : DraftBlock → γ) (h : ∀ b, observe (f b) = observe b) :
    observe ((a.editBlock l f).block m) = observe (a.block m) := by
  simp only [block, editBlock, Array.getD_eq_getD_getElem?, Array.getElem?_modify]
  split
  · cases a.blocks[m.index]? with
    | none => rfl
    | some b => exact h b
  · rfl

theorem editBlock_congr (h : f (a.block l) = g (a.block l)) : a.editBlock l f = a.editBlock l g := by
  unfold editBlock
  congr 1
  apply Array.ext
  · simp
  · intro k _ hk
    rw [Array.getElem_modify, Array.getElem_modify]
    split
    · subst k
      have hl : l.index < a.blocks.size := by simpa using hk
      simpa [block, Array.getD_eq_getD_getElem?, hl] using h
    · rfl

theorem editBlock_editBlock : (a.editBlock l f).editBlock l g = a.editBlock l (g ∘ f) := by
  unfold editBlock
  congr 1
  apply Array.ext
  · simp
  · intro k _ _
    simp only [Array.getElem_modify]
    split <;> rfl

theorem editBlock_comm (h : ∀ b, f (g b) = g (f b)) :
    (a.editBlock l f).editBlock m g = (a.editBlock m g).editBlock l f := by
  unfold editBlock
  congr 1
  apply Array.ext
  · simp
  · intro k _ _
    simp only [Array.getElem_modify]
    split <;> split <;> simp [h]

def grow (a : Assembler) (b : DraftBlock) : Assembler := { a with blocks := a.blocks.push b }

theorem ownsLabel_grow {b : DraftBlock} :
    (a.grow b).ownsLabel l = true ↔ a.ownsLabel l = true ∨ l = a.freshLabel := by
  obtain ⟨body, index⟩ := l
  simp only [ownsLabel_iff, grow, freshLabel, Array.size_push, Label.mk.injEq,
    Nat.lt_succ_iff_lt_or_eq, and_or_left]

theorem freshLabel_not_owned : a.ownsLabel a.freshLabel = false := by
  simp [ownsLabel, freshLabel]

theorem ne_freshLabel (owned : a.ownsLabel l = true) : l ≠ a.freshLabel := by
  rintro rfl
  rw [freshLabel_not_owned] at owned
  contradiction

theorem block_grow_of_owned {b : DraftBlock} (owned : a.ownsLabel l = true) :
    (a.grow b).block l = a.block l := by
  have hl := (ownsLabel_iff.mp owned).2
  simp [block, grow, Array.getD_eq_getD_getElem?, Array.getElem?_push, Nat.ne_of_lt hl]

theorem block_grow_fresh {b : DraftBlock} : (a.grow b).block a.freshLabel = b := by
  simp [block, grow, freshLabel, Array.getD_eq_getD_getElem?]

theorem editBlock_grow_fresh {b : DraftBlock} :
    (a.grow b).editBlock a.freshLabel f = a.grow (f b) := by
  simp only [grow, editBlock, freshLabel]
  congr 1
  apply Array.ext
  · simp
  · intro k hk _
    simp only [Array.getElem_modify, Array.getElem_push]
    by_cases hlast : k < a.blocks.size
    · simp [hlast, Nat.ne_of_gt hlast]
    · have hsize : a.blocks.size = k := by simp at hk; omega
      simp [hsize]

theorem editBlock_grow_of_owned {b : DraftBlock} (owned : a.ownsLabel l = true) :
    (a.grow b).editBlock l f = (a.editBlock l f).grow b := by
  have hl := (ownsLabel_iff.mp owned).2
  simp only [grow, editBlock]
  congr 1
  apply Array.ext
  · simp
  · intro k hk _
    simp only [Array.getElem_modify, Array.getElem_push, Array.size_modify]
    by_cases hlast : k < a.blocks.size
    · simp [hlast]
    · have hne : l.index ≠ k := by omega
      simp [hlast, hne]

end Dalvik.Assembler
