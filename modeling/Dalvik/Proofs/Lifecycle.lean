import Dalvik.Proofs.Calls
import Dalvik.Proofs.Layout
import Mathlib.Data.List.Nodup

/-! The life of a block. It is blank until its label is marked, then open while code goes into it,
and closed by the one instruction that decides where control goes on. `Sound` collects what every
body in the making has in common; each step keeps it. -/
namespace Dalvik

structure CatchClause.Apart (clauses : List CatchClause) : Prop where
  distinct : clauses.Pairwise fun c d => c.exception ≠ d.exception
  thrown : ∀ c ∈ clauses, c.exception.isReference = true

namespace DraftBlock

structure Blank (b : DraftBlock) : Prop where
  unmarked : b.marked = false
  code : b.instructions = #[]
  primary : b.primary = none
  alternate : b.alternate = none
  handlers : b.handlers = []

structure Open (b : DraftBlock) : Prop where
  adopted : b.adopted = true
  marked : b.marked = true
  straight : ∀ i ∈ b.instructions.toList, i.flow = .next
  primary : b.primary = none
  alternate : b.alternate = none
  handlers : b.handlers = []

/-- The edges that a block has on account of its last instruction. -/
def Exits (b : DraftBlock) (last : Instruction Local) : Prop :=
  match last.flow with
  | .next => last.canThrow = true ∧ b.alternate = none ∧ b.handlers ≠ [] ∧
      ∃ n, b.primary = some n ∧ ∀ c ∈ b.handlers, c.handler ≠ n
  | .goto => (∃ t, b.primary = some t) ∧ b.alternate = none ∧ b.handlers = []
  | .branch => (∃ n t, b.primary = some n ∧ b.alternate = some t ∧ n ≠ t) ∧ b.handlers = []
  | .leave => b.primary = none ∧ b.alternate = none ∧ b.handlers = []
  | .raise => b.primary = none ∧ b.alternate = none

structure Closed (b : DraftBlock) : Prop where
  adopted : b.adopted = true
  marked : b.marked = true
  ends : ∃ body last, b.instructions.toList = body ++ [last] ∧
    (∀ i ∈ body, i.flow = .next) ∧ b.Exits last
  apart : CatchClause.Apart b.handlers

/-- Where a block stands in its life, given whether it is the current one. -/
inductive Phase (b : DraftBlock) (current : Prop) : Prop
  | blank (state : b.Blank) (elsewhere : ¬ current)
  | opened (state : b.Open) (here : current)
  | closed (state : b.Closed) (elsewhere : ¬ current)

theorem Phase.congr {b : DraftBlock} {current current' : Prop} (h : b.Phase current)
    (same : current ↔ current') : b.Phase current' :=
  propext same ▸ h

theorem Phase.adopt {b : DraftBlock} {current : Prop} (h : b.Phase current) :
    Phase { b with adopted := true } current := by
  cases h with
  | blank state elsewhere =>
    exact .blank ⟨state.unmarked, state.code, state.primary, state.alternate, state.handlers⟩ elsewhere
  | opened state here =>
    exact .opened ⟨rfl, state.marked, state.straight, state.primary, state.alternate,
      state.handlers⟩ here
  | closed state elsewhere => exact .closed ⟨rfl, state.marked, state.ends, state.apart⟩ elsewhere

def after (moves : Array (Instruction Local)) (d : DraftBlock) : DraftBlock :=
  { d with instructions := moves ++ d.instructions }

theorem toList_after (moves : Array (Instruction Local)) (d : DraftBlock) :
    (d.after moves).instructions.toList = moves.toList ++ d.instructions.toList :=
  Array.toList_append

end DraftBlock

namespace Assembler

variable {a b : Assembler} {l m : Label}

structure Sound (a : Assembler) : Prop where
  nodup : a.order.toList.Nodup
  mem_order : ∀ l, l ∈ a.order.toList ↔ a.Uses l
  entry : a.order[0]? = some ⟨a.body, 0⟩
  entry_marked : (a.block ⟨a.body, 0⟩).marked = true
  current : ∀ l, a.current = some l → a.Uses l
  phase : ∀ l, a.ownsLabel l = true → (a.block l).Phase (a.current = some l)
  edges : ∀ l, a.ownsLabel l = true → ∀ s ∈ (a.block l).successors, a.Uses s
  catches : ∀ c ∈ a.catches, a.Uses c.handler
  apart : CatchClause.Apart a.catches

section Start

variable (body : BodyId) (method : MethodId) (isStatic : Bool)

theorem ownsLabel_start : (start body method isStatic).ownsLabel l = true ↔ l = ⟨body, 0⟩ := by
  obtain ⟨body', index⟩ := l
  simp [ownsLabel_iff, start]

theorem block_start :
    (start body method isStatic).block ⟨body, 0⟩ = { adopted := true, marked := true } :=
  rfl

theorem start_sound : (start body method isStatic).Sound := by
  have owned {l : Label} := ownsLabel_start body method isStatic (l := l)
  have hblock := block_start body method isStatic
  have uses {l : Label} : (start body method isStatic).Uses l ↔ l = ⟨body, 0⟩ := by
    constructor
    · exact fun h => owned.mp h.1
    · rintro rfl
      exact ⟨owned.mpr rfl, by rw [hblock]⟩
  refine
    { nodup := List.nodup_singleton _
      mem_order := fun l => by rw [uses]; simp [start]
      entry := rfl
      entry_marked := by exact congrArg DraftBlock.marked hblock
      current := fun l h => uses.mpr (Option.some.inj h).symm
      phase := fun l h => ?_
      edges := fun l h s hs => ?_
      catches := nofun
      apart := ⟨.nil, nofun⟩ }
  · obtain rfl := owned.mp h
    have hopen : DraftBlock.Open { adopted := true, marked := true } := ⟨rfl, rfl, by simp, rfl, rfl, rfl⟩
    exact .opened (hblock ▸ hopen) rfl
  · obtain rfl := owned.mp h
    simp [hblock, DraftBlock.successors] at hs

end Start

theorem Sound.congr (sound : a.Sound) (hbody : b.body = a.body) (hblocks : b.blocks = a.blocks)
    (horder : b.order = a.order) (hcurrent : b.current = a.current)
    (hcatches : b.catches = a.catches) : b.Sound := by
  cases a
  cases b
  subst hbody hblocks horder hcurrent hcatches
  exact ⟨sound.nodup, sound.mem_order, sound.entry, sound.entry_marked, sound.current, sound.phase,
    sound.edges, sound.catches, sound.apart⟩

theorem Sound.open_current (sound : a.Sound) (current : a.current = some l) :
    (a.block l).Open := by
  cases sound.phase l (sound.current l current).1 with
  | blank _ elsewhere => exact absurd current elsewhere
  | opened state _ => exact state
  | closed _ elsewhere => exact absurd current elsewhere

theorem Sound.blank (sound : a.Sound) (owned : a.ownsLabel l = true)
    (unmarked : (a.block l).marked = false) : (a.block l).Blank := by
  cases sound.phase l owned with
  | blank state _ => exact state
  | opened state _ => exact absurd state.marked (by simp [unmarked])
  | closed state _ => exact absurd state.marked (by simp [unmarked])

theorem Sound.entry_owned (sound : a.Sound) : a.ownsLabel ⟨a.body, 0⟩ = true :=
  ((sound.mem_order _).mp (List.mem_of_getElem? (by simpa using sound.entry))).1

theorem Sound.label (sound : a.Sound) : (a.grow {}).Sound := by
  have uses {l : Label} : (a.grow {}).Uses l ↔ a.Uses l := by
    rw [uses_grow]
    simp
  exact
    { nodup := sound.nodup
      mem_order := fun l => (sound.mem_order l).trans uses.symm
      entry := sound.entry
      entry_marked := by
        have h := block_grow_of_owned (b := {}) sound.entry_owned
        exact h ▸ sound.entry_marked
      current := fun l h => uses.mpr (sound.current l h)
      phase := fun l h => by
        obtain howned | rfl := ownsLabel_grow.mp h
        · rw [block_grow_of_owned howned]
          exact sound.phase l howned
        · rw [block_grow_fresh]
          exact .blank ⟨rfl, rfl, rfl, rfl, rfl⟩ fun here => ne_freshLabel (sound.current _ here).1 rfl
      edges := fun l h s hs => by
        obtain howned | rfl := ownsLabel_grow.mp h
        · rw [block_grow_of_owned howned] at hs
          exact uses.mpr (sound.edges l howned s hs)
        · simp [block_grow_fresh, DraftBlock.successors] at hs
      catches := fun c hc => uses.mpr (sound.catches c hc)
      apart := sound.apart }

theorem Sound.adopt (sound : a.Sound) (owned : a.ownsLabel l = true)
    (unused : (a.block l).adopted = false) (edited : Edited a l ({ · with adopted := true }) b)
    (horder : b.order = a.order.push l) (hcurrent : b.current = a.current) : b.Sound := by
  have uses {m : Label} : b.Uses m ↔ a.Uses m ∨ m = l := by
    rw [Uses, Uses, edited.ownsLabel]
    by_cases hl : m = l
    · subst m
      simp [edited.block_self owned, owned]
    · simp only [hl, or_false]
      exact and_congr_right fun hm => by rw [edited.block_of_ne owned hm hl]
  have hunlisted : l ∉ a.order.toList := by
    intro h
    have hused := ((sound.mem_order l).mp h).2
    simp [unused] at hused
  refine
    { nodup := ?_
      mem_order := fun m => ?_
      entry := ?_
      entry_marked := ?_
      current := fun m h => uses.mpr (.inl (sound.current m (hcurrent.symm.trans h)))
      phase := fun m h => ?_
      edges := fun m h s hs => ?_
      catches := fun c hc => uses.mpr (.inl (sound.catches c (edited.catches ▸ hc)))
      apart := edited.catches ▸ sound.apart }
  · rw [horder, Array.toList_push, ← List.concat_eq_append]
    exact sound.nodup.concat hunlisted
  · simp [horder, uses, ← sound.mem_order]
  · rw [horder, edited.body]
    have hentry := sound.entry
    grind
  · rw [edited.body, edited.observe DraftBlock.marked fun _ => rfl]
    exact sound.entry_marked
  · have hm : a.ownsLabel m = true := edited.ownsLabel.symm.trans h
    rw [hcurrent]
    by_cases hl : m = l
    · subst m
      rw [edited.block_self owned]
      exact (sound.phase l owned).adopt
    · rw [edited.block_of_ne owned hm hl]
      exact sound.phase m hm
  · have hm : a.ownsLabel m = true := edited.ownsLabel.symm.trans h
    rw [edited.observe DraftBlock.successors fun _ => rfl] at hs
    exact uses.mpr (.inl (sound.edges m hm s hs))

/-- An edit of one block keeps the body sound if the block is in order after it, with edges to labels
in use, and all other blocks are where they were. -/
theorem Sound.edit {f : DraftBlock → DraftBlock} (sound : a.Sound) (owned : a.ownsLabel l = true)
    (edited : Edited a l f b) (horder : b.order = a.order)
    (hadopted : ∀ b, (f b).adopted = b.adopted) (hmarked : ∀ b, b.marked = true → (f b).marked = true)
    (current : ∀ m, b.current = some m → a.Uses m)
    (elsewhere : ∀ m, m ≠ l → (a.current = some m ↔ b.current = some m))
    (phase : (f (a.block l)).Phase (b.current = some l))
    (edges : ∀ s ∈ (f (a.block l)).successors, a.Uses s) : b.Sound := by
  have uses {m : Label} : b.Uses m ↔ a.Uses m := edited.uses hadopted
  refine
    { nodup := horder ▸ sound.nodup
      mem_order := fun m => by rw [horder, uses, sound.mem_order]
      entry := by rw [horder, edited.body, sound.entry]
      entry_marked := ?_
      current := fun m h => uses.mpr (current m h)
      phase := fun m h => ?_
      edges := fun m h s hs => ?_
      catches := fun c hc => uses.mpr (sound.catches c (edited.catches ▸ hc))
      apart := edited.catches ▸ sound.apart }
  · have entry_owned := sound.entry_owned
    rw [edited.body]
    by_cases hl : (⟨a.body, 0⟩ : Label) = l
    · subst l
      rw [edited.block_self owned]
      exact hmarked _ sound.entry_marked
    · rw [edited.block_of_ne owned entry_owned hl]
      exact sound.entry_marked
  · have hm : a.ownsLabel m = true := edited.ownsLabel.symm.trans h
    by_cases hl : m = l
    · subst m
      rw [edited.block_self owned]
      exact phase
    · rw [edited.block_of_ne owned hm hl]
      exact (sound.phase m hm).congr (elsewhere m hl)
  · have hm : a.ownsLabel m = true := edited.ownsLabel.symm.trans h
    rw [uses]
    by_cases hl : m = l
    · subst m
      rw [edited.block_self owned] at hs
      exact edges s hs
    · rw [edited.block_of_ne owned hm hl] at hs
      exact sound.edges m hm s hs

theorem Sound.enter (sound : a.Sound) (uses : a.Uses l) (closed : a.current = none)
    (unmarked : (a.block l).marked = false) (edited : Edited a l ({ · with marked := true }) b)
    (horder : b.order = a.order) (hcurrent : b.current = some l) : b.Sound := by
  have hblank := sound.blank uses.1 unmarked
  refine sound.edit uses.1 edited horder (fun _ => rfl) (fun _ _ => rfl) ?_ ?_ ?_ ?_
  · intro m hm
    obtain rfl : l = m := Option.some.inj (hcurrent.symm.trans hm)
    exact uses
  · intro m hm
    simp [closed, hcurrent, Ne.symm hm]
  · refine .opened ⟨uses.2, rfl, ?_, hblank.primary, hblank.alternate, hblank.handlers⟩ hcurrent
    simp [hblank.code]
  · simp [DraftBlock.successors, hblank.primary, hblank.alternate, hblank.handlers]

theorem Sound.protect {clause : CatchClause} (sound : a.Sound)
    (thrown : clause.exception.isReference = true)
    (uncaught : a.catches.any (·.exception == clause.exception) = false)
    (uses : a.Uses clause.handler) : Sound { a with catches := clause :: a.catches } := by
  have hdistinct : ∀ c ∈ a.catches, clause.exception ≠ c.exception := by
    intro c hc same
    have := List.any_eq_false.mp uncaught c hc
    simp [same] at this
  exact
    { sound with
      catches := List.forall_mem_cons.mpr ⟨uses, sound.catches⟩
      apart :=
        { distinct := List.pairwise_cons.mpr ⟨hdistinct, sound.apart.distinct⟩
          thrown := List.forall_mem_cons.mpr ⟨thrown, sound.apart.thrown⟩ } }

theorem Sound.expose (sound : a.Sound) (exception : Ty) :
    Sound { a with catches := a.catches.eraseP (·.exception == exception) } :=
  { sound with
    catches := fun c hc => sound.catches c (List.mem_of_mem_eraseP hc)
    apart :=
      { distinct := sound.apart.distinct.sublist List.eraseP_sublist
        thrown := fun c hc => sound.apart.thrown c (List.mem_of_mem_eraseP hc) } }

theorem phase_prepend {d : DraftBlock} {current : Prop} {moves : Array (Instruction Local)}
    (h : d.Phase current) (marked : d.marked = true)
    (straight : ∀ i ∈ moves.toList, i.flow = .next) :
    (d.after moves).Phase current := by
  cases h with
  | blank state _ => simp [state.unmarked] at marked
  | opened state here =>
    refine .opened ⟨state.adopted, state.marked, ?_, state.primary, state.alternate,
      state.handlers⟩ here
    intro i hi
    simp only [DraftBlock.toList_after, List.mem_append] at hi
    exact hi.elim (straight i) (state.straight i)
  | closed state elsewhere =>
    obtain ⟨body, last, hcode, hbody, hexits⟩ := state.ends
    refine .closed ⟨state.adopted, state.marked, ⟨moves.toList ++ body, last, ?_, ?_, hexits⟩,
      state.apart⟩ elsewhere
    · rw [DraftBlock.toList_after, hcode, List.append_assoc]
    · intro i hi
      exact (List.mem_append.mp hi).elim (straight i) (hbody i)

def furnish (frame : Frame) (moves : Array (Instruction Local)) (a : Assembler) : Assembler :=
  { a.editBlock ⟨a.body, 0⟩ (DraftBlock.after moves) with frame := some frame }

theorem furnish_edited (frame : Frame) (moves : Array (Instruction Local)) :
    Edited a ⟨a.body, 0⟩ (DraftBlock.after moves) (a.furnish frame moves) :=
  ⟨rfl, rfl, rfl⟩

theorem Sound.furnish_eq {frame : Frame} {moves : Array (Instruction Local)} (sound : a.Sound) :
    { a.prepend moves with frame := some frame } = a.furnish frame moves := by
  simp only [prepend, sound.entry]
  rfl

theorem Sound.assign {frame : Frame} {moves : Array (Instruction Local)} (sound : a.Sound)
    (layout : a.layout = .ok (frame, moves)) :
    Sound { a.prepend moves with frame := some frame } := by
  have straight : ∀ i ∈ moves.toList, i.flow = .next := by
    rw [(laid_of_layout layout).moves]
    exact fun i hi => Instruction.flow_of_isMoveParameter (Placement.isMoveParameter_of_mem hi)
  rw [sound.furnish_eq]
  refine sound.edit sound.entry_owned (furnish_edited frame moves) rfl (fun _ => rfl) (fun _ h => h)
    sound.current (fun _ _ => Iff.rfl) ?_ ?_
  · exact phase_prepend (sound.phase _ sound.entry_owned) sound.entry_marked straight
  · exact sound.edges _ sound.entry_owned

end Assembler
end Dalvik
