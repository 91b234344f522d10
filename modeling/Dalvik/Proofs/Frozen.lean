import Dalvik.Proofs.Trace
import Dalvik.Proofs.Variables

/-! What calls cannot undo. Labels come into use and blocks are opened once and for all; a call puts
code into the block that was open and into blocks of its own making, and a closed block never changes
again, but for the moves of the arguments that the entry block gets with the registers. -/
namespace Dalvik.Assembler

variable {a b c : Assembler} {l m : Label}

/-- `b` is a later state of the body `a`: nothing that was settled is taken back. -/
structure Grows (a b : Assembler) : Prop where
  same : SameMethod a b
  frame : ∀ frame, a.frame = some frame → b.frame = some frame
  order : a.order.toList <+: b.order.toList
  owned : ∀ l, a.ownsLabel l = true → b.ownsLabel l = true
  adopted : ∀ l, a.ownsLabel l = true → (a.block l).adopted = true → (b.block l).adopted = true
  marked : ∀ l, a.ownsLabel l = true → (a.block l).marked = true → (b.block l).marked = true

theorem Grows.refl (a : Assembler) : Grows a a where
  same := ⟨rfl, rfl, rfl, rfl, rfl⟩
  frame := fun _ h => h
  order := List.prefix_rfl
  owned := fun _ h => h
  adopted := fun _ _ h => h
  marked := fun _ _ h => h

theorem Grows.trans (first : Grows a b) (second : Grows b c) : Grows a c where
  same := first.same.trans second.same
  frame := fun frame h => second.frame frame (first.frame frame h)
  order := first.order.trans second.order
  owned := fun l h => second.owned l (first.owned l h)
  adopted := fun l hl h => second.adopted l (first.owned l hl) (first.adopted l hl h)
  marked := fun l hl h => second.marked l (first.owned l hl) (first.marked l hl h)

def gained (a b : Assembler) (l : Label) : List (Instruction Local) :=
  if a.frame.isSome then [] else b.prologue l

theorem gained_of_frame (h : b.frame = a.frame) : a.gained b l = [] := by
  cases hframe : a.frame with
  | none => simp [gained, prologue, h, hframe]
  | some frame => simp [gained, hframe]

theorem Grows.gained (first : Grows a b) (second : Grows b c) :
    a.gained c l = b.gained c l ++ a.gained b l := by
  cases ha : a.frame with
  | some frame => simp [Assembler.gained, ha, first.frame frame ha]
  | none =>
    cases hb : b.frame with
    | none => simp [Assembler.gained, prologue, ha, hb]
    | some frame =>
      have hprologue : c.prologue l = b.prologue l :=
        prologue_congr second.same.body ((second.frame frame hb).trans hb.symm) second.same.parameters
      simp [Assembler.gained, ha, hb, hprologue]

/-- A block has the code and the edges it had, moves of arguments in front apart. -/
structure Keeps (a b : Assembler) (l : Label) : Prop where
  code : (b.block l).instructions.toList = a.gained b l ++ (a.block l).instructions.toList
  primary : (b.block l).primary = (a.block l).primary
  alternate : (b.block l).alternate = (a.block l).alternate
  handlers : (b.block l).handlers = (a.block l).handlers

theorem keeps_of_block (hframe : b.frame = a.frame) (hblock : b.block l = a.block l) :
    Keeps a b l := by
  constructor <;> simp [hblock, gained_of_frame hframe]

theorem Keeps.refl (a : Assembler) (l : Label) : Keeps a a l := keeps_of_block rfl rfl

theorem Keeps.trans (first : Keeps a b l) (second : Keeps b c l) (ab : Grows a b) (bc : Grows b c) :
    Keeps a c l where
  code := by rw [second.code, first.code, ab.gained bc, List.append_assoc]
  primary := second.primary.trans first.primary
  alternate := second.alternate.trans first.alternate
  handlers := second.handlers.trans first.handlers

theorem Edited.keeps {f : DraftBlock → DraftBlock} (edited : Edited a m f b)
    (hframe : b.frame = a.frame)
    (h : ∀ d : DraftBlock, ∃ adopted marked, f d = { d with adopted, marked }) : Keeps a b l := by
  have kept {γ : Type} (view : DraftBlock → γ)
      (hview : ∀ (d : DraftBlock) adopted marked, view { d with adopted, marked } = view d) :
      view (b.block l) = view (a.block l) := by
    refine edited.observe view fun d => ?_
    obtain ⟨adopted, marked, hd⟩ := h d
    rw [hd, hview]
  constructor
  · rw [gained_of_frame hframe, kept DraftBlock.instructions fun _ _ _ => rfl]
    rfl
  · exact kept DraftBlock.primary fun _ _ _ => rfl
  · exact kept DraftBlock.alternate fun _ _ _ => rfl
  · exact kept DraftBlock.handlers fun _ _ _ => rfl

/-- Registers bring moves of the arguments to the entry block, and change nothing else. -/
theorem Sound.assign_keeps {frame : Frame} {moves : Array (Instruction Local)} (sound : a.Sound)
    (unassigned : a.frame = none) (layout : a.layout = .ok (frame, moves))
    (owned : a.ownsLabel l = true) : Keeps a { a.prepend moves with frame := some frame } l := by
  have edited : Edited a ⟨a.body, 0⟩ _ (a.furnish frame moves) := furnish_edited frame moves
  have hgained : a.gained (a.furnish frame moves) l =
      if l = ⟨a.body, 0⟩ then moves.toList else [] := by
    simp [gained, prologue, unassigned, furnish, editBlock, (laid_of_layout layout).moves]
  rw [sound.furnish_eq]
  refine ⟨?_, edited.observe DraftBlock.primary fun _ => rfl,
    edited.observe DraftBlock.alternate fun _ => rfl, edited.observe DraftBlock.handlers fun _ => rfl⟩
  rw [hgained]
  by_cases hl : l = ⟨a.body, 0⟩
  · subst l
    simp [edited.block_self owned, DraftBlock.toList_after]
  · simp [hl, edited.block_of_ne sound.entry_owned owned hl]

theorem Step.keeps {entry : Option Entry} (step : Step a entry b) (sound : a.Sound)
    (owned : a.ownsLabel l = true) (elsewhere : a.current ≠ some l) : Keeps a b l := by
  cases step with
  | label => exact keeps_of_block rfl (block_grow_of_owned owned)
  | newLocal type => exact keeps_of_block rfl rfl
  | adopt m hm unused =>
    exact Edited.keeps (m := m) ⟨rfl, rfl, rfl⟩ rfl fun d => ⟨true, d.marked, rfl⟩
  | enter m closed uses unmarked =>
    exact Edited.keeps (m := m) ⟨rfl, rfl, rfl⟩ rfl fun d => ⟨d.adopted, true, rfl⟩
  | protect clause => exact keeps_of_block rfl rfl
  | expose exception => exact keeps_of_block rfl rfl
  | append m i target current operands emits =>
    have appended : Appended a m i target _ := sound.appended current
    refine keeps_of_block appended.frame (appended.others l owned ?_)
    rintro rfl
    exact elsewhere current
  | assign frame moves unassigned layout => exact sound.assign_keeps unassigned layout owned

theorem route_order (l : Label) (i : Instruction Local) (target : Option Label) :
    a.order.toList <+: (a.route l i target).state.order.toList := by
  have split {alternate : Option Label} {handlers : List CatchClause} :
      a.order.toList <+: (a.split l alternate handlers).order.toList := by
    simp [Assembler.split, editBlock]
  unfold route
  split
  · split
    · exact split
    · exact List.prefix_rfl
  · exact List.prefix_rfl
  · exact split
  · exact List.prefix_rfl
  · exact List.prefix_rfl

theorem Edited.grows {f : DraftBlock → DraftBlock} (edited : Edited a m f b) (same : SameMethod a b)
    (frame : ∀ frame, a.frame = some frame → b.frame = some frame)
    (order : a.order.toList <+: b.order.toList) (hm : a.ownsLabel m = true)
    (hadopted : (a.block m).adopted = true → (f (a.block m)).adopted = true)
    (hmarked : (a.block m).marked = true → (f (a.block m)).marked = true) : Grows a b := by
  have kept (flag : DraftBlock → Bool)
      (hflag : flag (a.block m) = true → flag (f (a.block m)) = true) (l : Label)
      (hl : a.ownsLabel l = true) (h : flag (a.block l) = true) : flag (b.block l) = true := by
    by_cases hlm : l = m
    · subst l
      rw [edited.block_self hm]
      exact hflag h
    · rwa [edited.block_of_ne hm hl hlm]
  exact ⟨same, frame, order, fun l hl => edited.ownsLabel.trans hl,
    kept DraftBlock.adopted hadopted, kept DraftBlock.marked hmarked⟩

theorem Step.grows {entry : Option Entry} (step : Step a entry b) (sound : a.Sound) : Grows a b := by
  have same := step.sameMethod
  have frame : ∀ frame, a.frame = some frame → b.frame = some frame := fun _ h => (step.assigned h).1
  cases step with
  | label =>
    refine ⟨same, frame, List.prefix_rfl, fun l h => ownsLabel_grow.mpr (.inl h), fun l hl h => ?_,
      fun l hl h => ?_⟩
    all_goals rwa [block_grow_of_owned hl]
  | adopt m hm unused =>
    exact Edited.grows (m := m) (f := ({ · with adopted := true })) ⟨rfl, rfl, rfl⟩ same frame
      (by simp) hm (fun _ => rfl) fun h => h
  | enter m closed uses unmarked =>
    exact Edited.grows (m := m) (f := ({ · with marked := true })) ⟨rfl, rfl, rfl⟩ same frame
      List.prefix_rfl uses.1 (fun h => h) fun _ => rfl
  | append m i target current operands emits =>
    have appended : Appended a m i target _ := sound.appended current
    refine ⟨same, frame, route_order (a := a.push m i) m i target,
      fun l h => (appended.owned l).mpr (.inl h), fun l hl h => ?_, fun l hl h => ?_⟩
    all_goals
      by_cases hlm : l = m
      · subst l
        rw [appended.block]
        exact h
      · rw [appended.others l hl hlm]
        exact h
  | assign fr moves unassigned layout =>
    rw [sound.furnish_eq] at same frame ⊢
    exact (furnish_edited fr moves).grows same frame List.prefix_rfl sound.entry_owned (fun h => h)
      fun h => h
  | _ => exact ⟨same, frame, List.prefix_rfl, fun _ h => h, fun _ _ h => h, fun _ _ h => h⟩

theorem Steps.grows {log : List Entry} (steps : Steps a log b) (sound : a.Sound) : Grows a b := by
  induction steps with
  | refl => exact .refl a
  | tail before step ih => exact ih.trans (step.grows (before.sound sound))

theorem Step.stays_closed {entry : Option Entry} (step : Step a entry b) (sound : a.Sound)
    (owned : a.ownsLabel l = true) (marked : (a.block l).marked = true)
    (elsewhere : a.current ≠ some l) : b.current ≠ some l := by
  cases step with
  | enter m closed uses unmarked =>
    intro h
    obtain rfl : m = l := Option.some.inj h
    simp [marked] at unmarked
  | append m i target current operands emits =>
    rw [(sound.appended current).current]
    have hne : m ≠ l := by
      rintro rfl
      exact elsewhere current
    split
    · simpa using (ne_freshLabel owned).symm
    · split <;> simp [hne]
  | assign frame moves unassigned layout =>
    rw [sound.furnish_eq]
    exact elsewhere
  | _ => exact elsewhere

theorem Steps.keeps {log : List Entry} (steps : Steps a log b) (sound : a.Sound)
    (owned : a.ownsLabel l = true) (marked : (a.block l).marked = true)
    (elsewhere : a.current ≠ some l) : Keeps a b l ∧ b.current ≠ some l := by
  -- the block stays marked, so no step can open it again
  induction steps with
  | refl => exact ⟨.refl a l, elsewhere⟩
  | @tail b c _ _ before step ih =>
    have grows := before.grows sound
    have sound' := before.sound sound
    have owned' := grows.owned l owned
    have kept := step.keeps sound' owned' ih.2
    exact ⟨ih.1.trans kept grows (step.grows sound'),
      step.stays_closed sound' owned' (grows.marked l owned marked) ih.2⟩

structure Confined (a b : Assembler) : Prop where
  grows : Grows a b
  current : ∀ l, a.ownsLabel l = true → b.current = some l → a.current = some l
  keeps : ∀ l, a.ownsLabel l = true → a.current ≠ some l → Keeps a b l

theorem Confined.refl (a : Assembler) : Confined a a where
  grows := .refl a
  current := fun _ _ h => h
  keeps := fun l _ _ => .refl a l

theorem Confined.trans (first : Confined a b) (second : Confined b c) : Confined a c where
  grows := first.grows.trans second.grows
  current := fun l hl h => first.current l hl (second.current l (first.grows.owned l hl) h)
  keeps := fun l hl h => by
    -- a block that was not open before the first call is not open before the second
    have elsewhere : b.current ≠ some l := fun hb => h (first.current l hl hb)
    exact (first.keeps l hl h).trans (second.keeps l (first.grows.owned l hl) elsewhere) first.grows
      second.grows

theorem Step.confined {entry : Option Entry} (step : Step a entry b) (sound : a.Sound)
    (hcurrent : ∀ l, a.ownsLabel l = true → b.current = some l → a.current = some l) :
    Confined a b where
  grows := step.grows sound
  current := hcurrent
  keeps := fun _ owned elsewhere => step.keeps sound owned elsewhere

theorem adopt_confined (sound : a.Sound) (h : a.adopt l = .ok b) : Confined a b := by
  obtain ⟨owned, ⟨-, rfl⟩ | ⟨unused, rfl⟩⟩ := adopt_cases h
  · exact .refl b
  · exact (Step.adopt a l owned unused).confined sound fun _ _ h => h

theorem append_confined {i : Instruction Local} {target : Option Label} (sound : a.Sound)
    (emits : a.Emits i target) : Confined a (a.append i target).state := by
  obtain ⟨e, h⟩ | ⟨l, current, operands, h⟩ := append_cases (a := a) i target
  · rw [h]
    exact .refl a
  · rw [h]
    refine (Step.append a l i target current operands emits).confined sound fun m owned hm => ?_
    rw [(sound.appended current).current] at hm
    split at hm
    · exact absurd (Option.some.inj hm).symm (ne_freshLabel owned)
    · split at hm
      · exact current.trans hm
      · cases hm

theorem appendAll_confined {is : List (Instruction Local)} (sound : a.Sound)
    (admitted : ∀ i ∈ is, Statement.Admitted a.method a.isStatic i) :
    Confined a (a.appendAll is).state := by
  induction is generalizing a with
  | nil => exact .refl a
  | cons i is ih =>
    have emits := emits_of_admitted (admitted i List.mem_cons_self)
    have first := append_confined sound emits
    have sound' := Steps.sound (append_performs emits).leads sound
    refine Outcome.state_andThen (P := Confined a) first fun _ => first.trans (ih sound' ?_)
    rw [first.grows.same.method, first.grows.same.isStatic]
    exact fun j hj => admitted j (List.mem_cons_of_mem i hj)

theorem appendTo_confined {i : Instruction Local} (sound : a.Sound)
    (typed : (i.map Local.type).WellTyped a.method a.isStatic) (plain : i.isMoveParameter = false)
    (labelled : i.flow.hasTarget = true) : Confined a (a.appendTo l i).state := by
  obtain ⟨e, h⟩ | ⟨b, hadopt, emits, h⟩ := appendTo_cases l typed plain labelled
  · rw [h]
    exact .refl a
  · rw [h]
    have sound' := (adopt_ok hadopt).1.steps.sound sound
    exact (adopt_confined sound hadopt).trans (append_confined sound' emits)

theorem branch_confined (sound : a.Sound) (comparison : Comparison) (x : Local) (y : Option Local) :
    Confined a (a.branch comparison l x y).state := by
  obtain ⟨e, h⟩ | ⟨typed, h⟩ := branch_cases (a := a) comparison l x y
  · rw [h]
    exact .refl a
  · rw [h]
    exact appendTo_confined sound typed rfl rfl

theorem emit_confined (sound : a.Sound) (statement : Statement) :
    Confined a (a.emit statement).state := by
  obtain ⟨e, h⟩ | ⟨is, admitted, h⟩ := emit_cases (a := a) statement
  · rw [h]
    exact .refl a
  · rw [h]
    exact appendAll_confined sound admitted

theorem clauses_confined (clauses : List CatchClause) : Confined a { a with catches := clauses } where
  grows := ⟨⟨rfl, rfl, rfl, rfl, rfl⟩, fun _ h => h, List.prefix_rfl, fun _ h => h, fun _ _ h => h,
    fun _ _ h => h⟩
  current := fun _ _ h => h
  keeps := fun _ _ _ => keeps_of_block rfl rfl

theorem addCatch_confined (sound : a.Sound) (exception : Ty) (handler : Label) :
    Confined a (a.addCatch exception handler).state := by
  unfold addCatch
  split
  · exact .refl a
  · split
    · exact .refl a
    · split
      · exact .refl a
      · rename_i b hadopt
        exact (adopt_confined sound hadopt).trans (clauses_confined _)

theorem removeCatch_confined (exception : Ty) : Confined a (a.removeCatch exception).state := by
  unfold removeCatch
  split
  · exact .refl a
  · exact clauses_confined _

theorem newLocal_confined (sound : a.Sound) (type : Ty) : Confined a (a.newLocal type).state := by
  obtain ⟨e, h⟩ | ⟨early, unassigned, value, h⟩ := newLocal_cases (a := a) type
  · rw [h]
    exact .refl a
  · rw [h]
    exact (Step.newLocal a type early unassigned value).confined sound fun _ _ h => h

theorem assignRegisters_confined (sound : a.Sound) : Confined a a.assignRegisters.state := by
  obtain ⟨e, h⟩ | ⟨frame, moves, unassigned, layout, h⟩ := a.assignRegisters_cases
  · rw [h]
    exact .refl a
  · rw [h]
    refine (Step.assign a frame moves unassigned layout).confined sound fun l _ hl => ?_
    rw [sound.furnish_eq] at hl
    exact hl

theorem finish_confined (sound : a.Sound) : Confined a a.finish.state := by
  rw [finish_state, ← assignRegisters_state]
  split
  · exact assignRegisters_confined sound
  · exact .refl a

theorem mark_keeps (sound : a.Sound) (owned : a.ownsLabel l = true) (elsewhere : a.current ≠ some l) :
    Keeps a (a.mark m).state l := by
  obtain ⟨e, h⟩ | ⟨b, hadopt, hmark⟩ := mark_cases (a := a) m
  · rw [h]
    exact .refl a l
  · obtain ⟨steady, uses⟩ := adopt_ok hadopt
    have adopted := adopt_confined sound hadopt
    have sound' := steady.steps.sound sound
    have owned' := adopted.grows.owned l owned
    have elsewhere' : b.current ≠ some l := fun hb => elsewhere (adopted.current l owned hb)
    have kept := adopted.keeps l owned elsewhere
    obtain ⟨-, h⟩ | ⟨unmarked, ⟨closed, h⟩ | ⟨c, current, h⟩⟩ := hmark
    · rw [h]
      exact kept
    · rw [h]
      have enter := Step.enter b m closed uses unmarked
      exact kept.trans (enter.keeps sound' owned' elsewhere') adopted.grows (enter.grows sound')
    · rw [h]
      -- the block that was open gets a jump, and it is closed when the new one is opened
      have jump := jumped_step uses current
      have enter := jumped_entered_step (c := c) uses unmarked
      have sound'' := jump.sound sound'
      have grows := jump.grows sound'
      have jumped := jump.keeps sound' owned' elsewhere'
      have entered := enter.keeps sound'' (grows.owned l owned') nofun
      exact kept.trans (jumped.trans entered grows (enter.grows sound'')) adopted.grows
        (grows.trans (enter.grows sound''))

theorem run_confined (sound : a.Sound) {operation : Operation}
    (h : ∀ label, operation ≠ .mark label) : Confined a (a.run operation).state := by
  cases operation with
  | newLabel => exact (Step.label a).confined sound fun _ _ h => h
  | newLocal type => exact newLocal_confined sound type
  | mark label => exact absurd rfl (h label)
  | jump label => exact appendTo_confined sound trivial rfl rfl
  | branch comparison target x y => exact branch_confined sound comparison x y
  | addCatch exception handler => exact addCatch_confined sound exception handler
  | removeCatch exception => exact removeCatch_confined exception
  | emit statement => exact emit_confined sound statement
  | assignRegisters => exact assignRegisters_confined sound
  | finish => exact finish_confined sound
  | _ => exact .refl a

/-- Only the open block and new blocks get code and edges from a call. -/
theorem run_keeps (sound : a.Sound) (operation : Operation) (owned : a.ownsLabel l = true)
    (elsewhere : a.current ≠ some l) : Keeps a (a.run operation).state l := by
  by_cases h : ∃ label, operation = .mark label
  · obtain ⟨label, rfl⟩ := h
    exact mark_keeps sound owned elsewhere
  · exact (run_confined sound fun label hlabel => h ⟨label, hlabel⟩).keeps l owned elsewhere

structure Staged (a : Assembler) : Prop where
  nodup : a.order.toList.Nodup
  entry : a.order[0]? = some ⟨a.body, 0⟩
  mem_order : ∀ l, l ∈ a.order.toList ↔ a.ownsLabel l = true ∧ (a.block l).adopted = true
  adopted : ∀ l, a.ownsLabel l = true → (a.block l).marked = true → (a.block l).adopted = true
  blank : ∀ l, a.ownsLabel l = true → (a.block l).marked = false → (a.block l).Blank
  opened : ∀ l, a.current = some l → a.ownsLabel l = true ∧ (a.block l).Open

theorem Sound.staged (sound : a.Sound) : a.Staged where
  nodup := sound.nodup
  entry := sound.entry
  mem_order := sound.mem_order
  adopted := fun l owned marked => by
    cases sound.phase l owned with
    | blank state _ => simp [state.unmarked] at marked
    | opened state _ => exact state.adopted
    | closed state _ => exact state.adopted
  blank := fun _ owned unmarked => sound.blank owned unmarked
  opened := fun l current => ⟨(sound.current l current).1, sound.open_current current⟩

/-- What a body is at some time, what a call can make of it, and what no calls can. -/
structure Lasting (a : Assembler) : Prop where
  staged : a.Staged
  frame : ∀ operation, operation ≠ .assignRegisters → operation ≠ .finish →
    (a.run operation).state.frame = a.frame
  confined : ∀ operation l, a.ownsLabel l = true → a.current ≠ some l →
    Keeps a (a.run operation).state l
  grows : ∀ later, Grows a (a.runAll later)
  closed : ∀ later l, a.ownsLabel l = true → (a.block l).marked = true → a.current ≠ some l →
    Keeps a (a.runAll later) l ∧ (a.runAll later).current ≠ some l

/-- Labels come into use one after another, get their blocks one after another, and what is closed
stays as it is. -/
theorem runAll_lasting (id : BodyId) (method : MethodId) (isStatic : Bool)
    (history : List Operation) : ((start id method isStatic).runAll history).Lasting := by
  have sound := (runAll_steps history).sound (start_sound id method isStatic)
  exact
    { staged := sound.staged
      frame := fun _ hassign hfinish => run_frame hassign hfinish
      confined := fun operation _ owned elsewhere => run_keeps sound operation owned elsewhere
      grows := fun later => (runAll_steps later).grows sound
      closed := fun later _ owned marked elsewhere =>
        (runAll_steps later).keeps sound owned marked elsewhere }

end Dalvik.Assembler
