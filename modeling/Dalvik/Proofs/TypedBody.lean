import Dalvik.Proofs.Graph
import Dalvik.Proofs.Variables

/-! Finished bodies are well typed: each instruction obeys its rule over the types that its registers
carry. -/
namespace Dalvik

namespace Assembler

variable {a : Assembler} {l : Label} {log : List Entry} {i : Instruction Local}

theorem Numbered.prologue_wellTyped (numbered : a.Numbered) (hi : i ∈ a.prologue l) :
    (i.map Local.type).WellTyped a.method a.isStatic := by
  unfold prologue at hi
  split at hi
  · obtain ⟨x, hx, n, rfl⟩ := Placement.exists_of_mem_argumentMoves hi
    have htype : x.type ∈ a.parameters.toList.map Local.type := List.mem_map_of_mem hx
    rwa [numbered.types] at htype
  · simp at hi

/-- All code in the making is well typed: it is a move of an argument or was checked when it was
appended. -/
theorem Traced.wellTyped (traced : a.Traced log) (numbered : a.Numbered)
    (checked : ∀ e ∈ log, (e.instruction.map Local.type).WellTyped a.method a.isStatic)
    (owned : a.ownsLabel l = true) (hi : i ∈ (a.block l).instructions.toList) :
    (i.map Local.type).WellTyped a.method a.isStatic := by
  obtain ⟨before, run, after, spans⟩ := traced.spans l owned
  rw [spans.code, List.mem_append, List.mem_map] at hi
  obtain hi | ⟨e, he, rfl⟩ := hi
  · exact numbered.prologue_wellTyped hi
  · exact checked e (spans.mem_run_iff.mp he).1

/-- Whatever calls were made on a body, if it finishes, then well typed. -/
theorem finish_wellTyped (id : BodyId) (method : MethodId) (isStatic : Bool)
    (history : List Operation) (body : MethodBody)
    (h : ((start id method isStatic).runAll history).finish.result = .ok body) :
    ∀ block ∈ body.blocks, ∀ r ∈ block.instructions,
      (r.map Register.type).WellTyped method isStatic := by
  intro block hblock r hr
  obtain ⟨steps, done⟩ := finish_steps h
  have sound := steps.sound (start_sound id method isStatic)
  have traced := steps.traced (start_sound id method isStatic) (start_traced id method isStatic)
  have numbered := steps.numbered (start_numbered id method isStatic)
  have same := steps.sameMethod
  have checked : ∀ e ∈ (start id method isStatic).log history,
      (e.instruction.map Local.type).WellTyped method isStatic := by
    intro e he
    obtain ⟨c, hc, emits⟩ := steps.emits e he
    have typed := emits.typed
    rwa [hc.method, hc.isStatic] at typed
  obtain ⟨k, hk⟩ := List.getElem?_of_mem hblock
  obtain ⟨l, hl, hfinished⟩ := done.block_iff.mp hk
  obtain ⟨is, his, rfl⟩ := finishBlock_eq_ok.mp hfinished
  obtain ⟨n, hn⟩ := List.getElem?_of_mem hr
  obtain ⟨i, hi, htraverse⟩ := (getElem?_of_mapM his n r).mp hn
  have owned := ((mem_surviving sound).mp (List.mem_of_getElem? hl)).1.1
  have typed := traced.wellTyped numbered (by rw [same.method, same.isStatic]; exact checked) owned
    (List.mem_of_getElem? hi)
  rw [same.method, same.isStatic] at typed
  exact (Instruction.types_of_traverse register_keepsTypes htraverse).symm ▸ typed

end Assembler

namespace Reduction

theorem finished_wellTyped :
    ((Assembler.start id method false).runAll calls).finish.result = .ok finished ∧
      ∀ block ∈ finished.blocks, ∀ r ∈ block.instructions,
        (r.map Register.type).WellTyped method false :=
  ⟨calls_finish, Assembler.finish_wellTyped id method false calls finished calls_finish⟩

end Reduction
end Dalvik
