import Dalvik.Proofs.Occurrence
import Dalvik.Proofs.Trace

/-! Finished bodies. A body that finishes has no open code, and every edge of a block with code leads
to another such block; so no edge is lost when labels are replaced by numbers. -/
namespace Dalvik

theorem Outcome.andThen_ok {first : Outcome σ α} {next : σ → α → Outcome σ β} {value : β}
    (h : (first.andThen next).result = .ok value) :
    ∃ u, (next first.state u).result = .ok value ∧
      (first.andThen next).state = (next first.state u).state := by
  obtain ⟨result, state, events⟩ := first
  cases result with
  | error e => cases h
  | ok u => exact ⟨u, h, rfl⟩

namespace Assembler

variable {a b : Assembler} {l : Label} {body : MethodBody}

structure Completes (a : Assembler) (body : MethodBody) : Prop where
  emitted : a.emitted = true
  pending : a.pending = none
  unplaced : a.unplaced = []
  frame : ∃ frame, a.frame = some frame ∧ body.registers = frame.size ∧
    body.parameterRegisters = frame.parameterSize
  blocks : a.finishBlocks = .ok body.blocks

theorem completes_of_complete (emitted : a.emitted = true) (h : a.complete.result = .ok body) :
    a.Completes body := by
  simp only [complete] at h
  split at h
  · cases h
  · rename_i hfinished
    split at h
    · cases h
    · rename_i frame hframe
      split at h
      · cases h
      · rename_i blocks hblocks
        cases h
        simp only [Bool.or_eq_true, not_or, Bool.not_eq_true, Option.isSome_eq_false_iff,
          Option.isNone_iff_eq_none, Bool.not_eq_false', List.isEmpty_iff] at hfinished
        exact ⟨emitted, hfinished.1, hfinished.2, ⟨frame, hframe, rfl, rfl⟩, hblocks⟩

theorem ensureRegisters_steps : Steps a [] a.ensureRegisters.state ∧
    a.ensureRegisters.state.emitted = a.emitted := by
  unfold ensureRegisters
  split
  · exact ⟨.refl, rfl⟩
  · obtain ⟨e, h⟩ | ⟨frame, moves, unassigned, layout, h⟩ := a.assignRegisters_cases
    · rw [h]
      exact ⟨.refl, rfl⟩
    · rw [h]
      refine ⟨(Step.assign a frame moves unassigned layout).single, ?_⟩
      change (a.prepend moves).emitted = a.emitted
      unfold prepend
      split <;> rfl

theorem finish_ok (h : a.finish.result = .ok body) :
    Steps a [] a.finish.state ∧ a.finish.state.Completes body := by
  unfold finish at h ⊢
  split at h
  · cases h
  · rename_i hempty
    have emitted : a.emitted = true := by simpa [isEmpty] using hempty
    rw [if_neg hempty]
    obtain ⟨steps, hemitted⟩ := ensureRegisters_steps (a := a)
    obtain ⟨-, hcomplete, hstate⟩ := Outcome.andThen_ok h
    rw [hstate, complete_state]
    exact ⟨steps, completes_of_complete (hemitted.trans emitted) hcomplete⟩

theorem register_keepsTypes : Instruction.KeepsTypes a.register := by
  intro x r h
  unfold register at h
  split at h
  · cases h
  · split at h
    · cases h
    · split at h
      · cases h
      · cases h
        rfl

theorem finish_steps {id : BodyId} {method : MethodId} {isStatic : Bool} {history : List Operation}
    (h : ((start id method isStatic).runAll history).finish.result = .ok body) :
    Steps (start id method isStatic) ((start id method isStatic).log history)
        ((start id method isStatic).runAll history).finish.state ∧
      ((start id method isStatic).runAll history).finish.state.Completes body := by
  obtain ⟨steps, done⟩ := finish_ok h
  refine ⟨?_, done⟩
  simpa using (runAll_steps (a := start id method isStatic) history).trans steps

@[simp] theorem finishBlock_eq_ok {labels : List Label} {id : Nat} {block : BasicBlock} :
    a.finishBlock labels id l = .ok block ↔ ∃ is,
      (a.block l).instructions.toList.mapM (·.traverse a.register) = .ok is ∧
        { id, instructions := is
          primary := (a.block l).primary.bind labels.idxOf?
          alternate := (a.block l).alternate.bind labels.idxOf?
          handlers := (a.block l).handlers.filterMap fun clause =>
            (labels.idxOf? clause.handler).map fun block => ⟨clause.exception, block⟩ } = block := by
  simp [finishBlock]

theorem Completes.block_iff (done : a.Completes body) {k : Nat} {block : BasicBlock} :
    body.blocks[k]? = some block ↔
      ∃ l, a.surviving[k]? = some l ∧ a.finishBlock a.surviving k l = .ok block := by
  rw [getElem?_of_mapM done.blocks]
  simp only [List.getElem?_zipIdx, Option.map_eq_some_iff, Nat.zero_add]
  constructor
  · rintro ⟨_, ⟨l, hl, rfl⟩, h⟩
    exact ⟨l, hl, h⟩
  · rintro ⟨l, hl, h⟩
    exact ⟨(l, k), ⟨l, hl, rfl⟩, h⟩

theorem Completes.length_blocks (done : a.Completes body) :
    body.blocks.length = a.surviving.length := by
  rw [length_of_mapM done.blocks, List.length_zipIdx]

theorem mem_surviving (sound : a.Sound) :
    l ∈ a.surviving ↔ a.Uses l ∧ (a.block l).isEmpty = false := by
  simp [surviving, ← sound.mem_order]

theorem nodup_surviving (sound : a.Sound) : a.surviving.Nodup := sound.nodup.filter _

theorem Completes.closed (done : a.Completes body) (sound : a.Sound) (hl : l ∈ a.surviving) :
    (a.block l).Closed := by
  obtain ⟨uses, hcode⟩ := (mem_surviving sound).mp hl
  cases sound.phase l uses.1 with
  | blank state _ => simp [DraftBlock.isEmpty, state.code] at hcode
  | opened _ here =>
    have hpending := done.pending
    simp [Assembler.pending, here, hcode] at hpending
  | closed state _ => exact state

theorem Completes.successor (done : a.Completes body) (sound : a.Sound) (hl : l ∈ a.surviving)
    {s : Label} (hs : s ∈ (a.block l).successors) : s ∈ a.surviving := by
  rw [mem_surviving sound]
  refine ⟨sound.edges l ((mem_surviving sound).mp hl).1.1 s hs, ?_⟩
  by_contra hempty
  have hunplaced : s ∈ a.unplaced := by
    simp only [Assembler.unplaced, List.mem_eraseDups, List.mem_filter, List.mem_flatMap]
    exact ⟨⟨l, hl, hs⟩, by simpa using hempty⟩
  simp [done.unplaced] at hunplaced

theorem Traced.survives {log : List Entry} (traced : a.Traced log) (sound : a.Sound) {e : Entry}
    (he : e ∈ log) : e.block ∈ a.surviving := by
  have owned := traced.owned e he
  obtain ⟨before, run, after, spans⟩ := traced.spans e.block owned
  have hrun : e ∈ run := spans.mem_run_iff.mpr ⟨he, rfl⟩
  have hcode : (a.block e.block).isEmpty = false := by
    have : (a.block e.block).instructions.toList ≠ [] := by
      rw [spans.code]
      exact List.append_ne_nil_of_right_ne_nil _ (List.ne_nil_of_mem (List.mem_map_of_mem hrun))
    simpa [DraftBlock.isEmpty] using this
  rw [mem_surviving sound]
  refine ⟨⟨owned, ?_⟩, hcode⟩
  cases sound.phase e.block owned with
  | blank state _ => simp [DraftBlock.isEmpty, state.code] at hcode
  | opened state _ => exact state.adopted
  | closed state _ => exact state.adopted

theorem Completes.first (done : a.Completes body) {log : List Entry} (traced : a.Traced log) :
    ∃ e rest, log = e :: rest ∧ e.block = ⟨a.body, 0⟩ := by
  obtain ⟨e, rest, rfl⟩ := List.exists_cons_of_ne_nil (traced.emitted done.emitted)
  exact ⟨e, rest, rfl, Option.some.inj traced.first⟩

theorem Completes.entry (done : a.Completes body) (sound : a.Sound) {log : List Entry}
    (traced : a.Traced log) : a.surviving[0]? = some ⟨a.body, 0⟩ := by
  obtain ⟨e, rest, rfl, hfirst⟩ := done.first traced
  have hcode := (mem_surviving sound).mp (hfirst ▸ traced.survives sound List.mem_cons_self)
  have horder : a.order.toList[0]? = some ⟨a.body, 0⟩ := by simpa using sound.entry
  obtain ⟨later, hlater⟩ : ∃ later, a.order.toList = ⟨a.body, 0⟩ :: later := by
    cases h : a.order.toList with
    | nil => simp [h] at horder
    | cons l later => exact ⟨later, by simpa [h] using horder⟩
  simp [surviving, hlater, hcode.2]

end Assembler
end Dalvik
