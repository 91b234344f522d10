import Dalvik.Proofs.Lifecycle

/-! Appending an instruction to the open block: the block gets the edges that the instruction calls
for and stays open, is closed, or is closed in favour of a new block. Every body in the making is
sound. -/
namespace Dalvik.Assembler

variable {a b : Assembler} {l m : Label}

structure Edges where
  primary : Option Label := none
  alternate : Option Label := none
  handlers : List CatchClause := []

def ended (i : Instruction Local) (e : Edges) (d : DraftBlock) : DraftBlock :=
  { d with
    instructions := d.instructions.push i
    primary := e.primary
    alternate := e.alternate
    handlers := e.handlers }

def guards (a : Assembler) (i : Instruction Local) : Bool := i.canThrow && !a.catches.isEmpty

def exits (a : Assembler) (i : Instruction Local) (target : Option Label) : Edges :=
  match i.flow with
  | .next => if a.guards i then { primary := some a.freshLabel, handlers := a.catches } else {}
  | .goto => { primary := target }
  | .branch => { primary := some a.freshLabel, alternate := target }
  | .leave => {}
  | .raise => { handlers := a.catches }

def forks (a : Assembler) (i : Instruction Local) : Bool :=
  match i.flow with
  | .next => a.guards i
  | .branch => true
  | _ => false

theorem freshLabel_push {i : Instruction Local} : (a.push l i).freshLabel = a.freshLabel := by
  simp [freshLabel, push, editBlock]

theorem push_eq {i : Instruction Local} (hopen : (a.block l).Open) :
    a.push l i = { a.editBlock l (ended i {}) with emitted := true } := by
  unfold push
  rw [editBlock_congr (f := fun d => { d with instructions := d.instructions.push i }) (g := ended i {})]
  simp [ended, hopen.primary, hopen.alternate, hopen.handlers]

theorem close_eq {i : Instruction Local} {e : Edges} {edges : DraftBlock → DraftBlock}
    (h : edges (ended i {} (a.block l)) = ended i e (a.block l)) (hopen : (a.block l).Open) :
    (a.push l i).close l edges =
      { a.editBlock l (ended i e) with emitted := true, current := none } := by
  rw [push_eq hopen]
  unfold close
  have hedit : (a.editBlock l (ended i {})).editBlock l edges = a.editBlock l (ended i e) := by
    rw [editBlock_editBlock]
    exact editBlock_congr h
  have hblocks := congrArg Assembler.blocks hedit
  simp only [editBlock] at hblocks ⊢
  rw [hblocks]

theorem split_eq {i : Instruction Local} {e : Edges} (hopen : (a.block l).Open)
    (hprimary : e.primary = some a.freshLabel) :
    (a.push l i).split l e.alternate e.handlers =
      { (a.editBlock l (ended i e)).grow { adopted := true, marked := true } with
        order := a.order.push a.freshLabel
        current := some a.freshLabel
        emitted := true } := by
  have hedit : (a.editBlock l (ended i {})).editBlock l
      ({ · with primary := some a.freshLabel, alternate := e.alternate, handlers := e.handlers }) =
        a.editBlock l (ended i e) := by
    rw [editBlock_editBlock]
    exact editBlock_congr (by simp [ended, hprimary])
  have hblocks := congrArg Assembler.blocks hedit
  simp only [split, freshLabel_push]
  rw [push_eq hopen]
  simp only [editBlock, grow] at hblocks ⊢
  rw [hblocks]

theorem route_of_forks {i : Instruction Local} {target : Option Label} (hopen : (a.block l).Open)
    (hforks : a.forks i = true) :
    ((a.push l i).route l i target).state =
      { (a.editBlock l (ended i (a.exits i target))).grow { adopted := true, marked := true } with
        order := a.order.push a.freshLabel
        current := some a.freshLabel
        emitted := true } := by
  cases hflow : i.flow with
  | next =>
    have hguards : a.guards i = true := by simpa [forks, hflow] using hforks
    have hsplits : (i.canThrow && !(a.push l i).catches.isEmpty) = true := hguards
    have hexits : a.exits i target = { primary := some a.freshLabel, handlers := a.catches } := by
      simp [exits, hflow, hguards]
    simp only [route, hflow, hsplits, if_true, hexits]
    exact split_eq (e := { primary := some a.freshLabel, handlers := a.catches }) hopen rfl
  | branch =>
    have hexits : a.exits i target = { primary := some a.freshLabel, alternate := target } := by
      simp [exits, hflow]
    simp only [route, hflow, hexits]
    exact split_eq (e := { primary := some a.freshLabel, alternate := target }) hopen rfl
  | goto => simp [forks, hflow] at hforks
  | leave => simp [forks, hflow] at hforks
  | raise => simp [forks, hflow] at hforks

theorem route_of_not_forks {i : Instruction Local} {target : Option Label}
    (hopen : (a.block l).Open) (hcurrent : a.current = some l) (hforks : a.forks i = false) :
    ((a.push l i).route l i target).state =
      { a.editBlock l (ended i (a.exits i target)) with
        current := if i.flow = .next then some l else none
        emitted := true } := by
  cases hflow : i.flow with
  | next =>
    have hguards : a.guards i = false := by simpa [forks, hflow] using hforks
    have hsplits : (i.canThrow && !(a.push l i).catches.isEmpty) = false := hguards
    have hexits : a.exits i target = {} := by simp [exits, hflow, hguards]
    simp only [route, hflow, hsplits, Bool.false_eq_true, if_false, hexits, if_true, Outcome.ok]
    simp only [push_eq hopen, editBlock, hcurrent]
  | goto =>
    have hexits : a.exits i target = { primary := target } := by simp [exits, hflow]
    simp only [route, hflow, hexits, Outcome.ok, reduceCtorEq, if_false]
    exact close_eq rfl hopen
  | leave =>
    have hexits : a.exits i target = {} := by simp [exits, hflow]
    simp only [route, hflow, hexits, Outcome.ok, reduceCtorEq, if_false]
    exact close_eq rfl hopen
  | raise =>
    have hexits : a.exits i target = { handlers := a.catches } := by simp [exits, hflow]
    simp only [route, hflow, hexits, Outcome.ok, reduceCtorEq, if_false]
    exact close_eq rfl hopen
  | branch => simp [forks, hflow] at hforks

theorem Sound.exits_used {i : Instruction Local} {target : Option Label} (sound : a.Sound)
    (emits : a.Emits i target) (d : DraftBlock) :
    ∀ s ∈ (ended i (a.exits i target) d).successors,
      a.Uses s ∨ a.forks i = true ∧ s = a.freshLabel := by
  intro s hs
  have labelled := emits.labelled
  have hhandlers : s ∈ a.catches.map CatchClause.handler → a.Uses s := by
    intro h
    obtain ⟨c, hc, rfl⟩ := List.mem_map.mp h
    exact sound.catches c hc
  simp only [DraftBlock.successors, ended, List.mem_append, or_assoc, Option.mem_toList] at hs
  cases hflow : i.flow with
  | next =>
    cases hguards : a.guards i with
    | true =>
      simp only [exits, hflow, hguards, if_true, reduceCtorEq, false_or, Option.some.injEq] at hs
      obtain rfl | hs := hs
      · exact .inr ⟨by simp [forks, hflow, hguards], rfl⟩
      · exact .inl (hhandlers hs)
    | false => simp [exits, hflow, hguards] at hs
  | goto =>
    simp only [hflow, Flow.hasTarget, if_true] at labelled
    obtain ⟨t, rfl, uses⟩ := labelled
    simp only [exits, hflow, Option.some.injEq, reduceCtorEq, List.map_nil, List.not_mem_nil,
      or_false] at hs
    exact .inl (hs ▸ uses)
  | branch =>
    simp only [hflow, Flow.hasTarget, if_true] at labelled
    obtain ⟨t, rfl, uses⟩ := labelled
    simp only [exits, hflow, Option.some.injEq, List.map_nil, List.not_mem_nil, or_false] at hs
    obtain rfl | rfl := hs
    · exact .inr ⟨by simp [forks, hflow], rfl⟩
    · exact .inl uses
  | leave => simp [exits, hflow] at hs
  | raise =>
    simp only [exits, hflow, reduceCtorEq, false_or] at hs
    exact .inl (hhandlers hs)

theorem open_ended {i : Instruction Local} {target : Option Label} {d : DraftBlock} (hopen : d.Open)
    (hflow : i.flow = .next) (hforks : a.forks i = false) :
    (ended i (a.exits i target) d).Open := by
  have hguards : a.guards i = false := by simpa [forks, hflow] using hforks
  have hexits : a.exits i target = {} := by simp [exits, hflow, hguards]
  rw [hexits]
  refine ⟨hopen.adopted, hopen.marked, ?_, rfl, rfl, rfl⟩
  intro j hj
  simp only [ended, Array.toList_push, List.mem_append, List.mem_singleton] at hj
  obtain hj | rfl := hj
  · exact hopen.straight j hj
  · exact hflow

theorem Sound.closed_ended {i : Instruction Local} {target : Option Label} {d : DraftBlock}
    (sound : a.Sound) (emits : a.Emits i target) (hopen : d.Open)
    (hends : i.flow ≠ .next ∨ a.forks i = true) : (ended i (a.exits i target) d).Closed := by
  have labelled := emits.labelled
  refine ⟨hopen.adopted, hopen.marked,
    ⟨d.instructions.toList, i, by simp [ended], hopen.straight, ?_⟩, ?_⟩
  · cases hflow : i.flow with
    | next =>
      have hguards : a.guards i = true := by simpa [forks, hflow] using hends
      have hcatches : i.canThrow = true ∧ a.catches ≠ [] := by simpa [guards] using hguards
      simp only [DraftBlock.Exits, hflow, ended, exits, hguards, if_true, true_and]
      refine ⟨hcatches.1, hcatches.2, a.freshLabel, rfl, ?_⟩
      exact fun c hc => ne_freshLabel (sound.catches c hc).1
    | goto =>
      simp only [hflow, Flow.hasTarget, if_true] at labelled
      obtain ⟨t, rfl, -⟩ := labelled
      simp [DraftBlock.Exits, hflow, ended, exits]
    | branch =>
      simp only [hflow, Flow.hasTarget, if_true] at labelled
      obtain ⟨t, rfl, uses⟩ := labelled
      simp only [DraftBlock.Exits, hflow, ended, exits, and_true]
      exact ⟨a.freshLabel, t, rfl, rfl, (ne_freshLabel uses.1).symm⟩
    | leave => simp [DraftBlock.Exits, hflow, ended, exits]
    | raise => simp [DraftBlock.Exits, hflow, ended, exits]
  · have hnone : CatchClause.Apart [] := ⟨.nil, nofun⟩
    cases hflow : i.flow with
    | next =>
      have hguards : a.guards i = true := by simpa [forks, hflow] using hends
      simpa [ended, exits, hflow, hguards] using sound.apart
    | raise => simpa [ended, exits, hflow] using sound.apart
    | goto => simpa [ended, exits, hflow] using hnone
    | branch => simpa [ended, exits, hflow] using hnone
    | leave => simpa [ended, exits, hflow] using hnone

/-- A new block is entered as any other: its label is made, taken into use and, once the block before
it is closed, marked. -/
theorem Sound.fork {i : Instruction Local} {target : Option Label} (sound : a.Sound)
    (hcurrent : a.current = some l) (emits : a.Emits i target) (hforks : a.forks i = true) :
    Sound { (a.editBlock l (ended i (a.exits i target))).grow { adopted := true, marked := true } with
      order := a.order.push a.freshLabel
      current := some a.freshLabel
      emitted := true } := by
  have owned := (sound.current l hcurrent).1
  have hopen := sound.open_current hcurrent
  have hne : l ≠ a.freshLabel := ne_freshLabel owned
  -- the new label in use
  let made : Assembler := { a.grow { adopted := true } with order := a.order.push a.freshLabel }
  have made_sound : made.Sound := by
    have hfresh : (a.grow {}).ownsLabel a.freshLabel = true := ownsLabel_grow.mpr (.inr rfl)
    refine sound.label.adopt hfresh ?_ ⟨rfl, ?_, rfl⟩ rfl rfl
    · rw [block_grow_fresh]
    · rw [editBlock_grow_fresh]
  have made_uses {m : Label} : made.Uses m ↔ a.Uses m ∨ m = a.freshLabel := by
    have h : made.Uses m ↔ (a.grow { adopted := true }).Uses m := uses_congr rfl rfl
    simp [h, uses_grow]
  have made_block : made.block l = a.block l := by
    have h : made.block l = (a.grow { adopted := true }).block l := block_congr rfl
    rw [h, block_grow_of_owned owned]
  -- the block before it closed
  let closed : Assembler := { made.editBlock l (ended i (a.exits i target)) with current := none }
  have closed_sound : closed.Sound := by
    refine made_sound.edit (made_uses.mpr (.inl (sound.current l hcurrent))).1
      (f := ended i (a.exits i target)) ⟨rfl, rfl, rfl⟩ rfl (fun _ => rfl) (fun _ h => h) nofun ?_ ?_ ?_
    · intro m hm
      have : made.current = some l := hcurrent
      simp [this, closed, hm.symm]
    · rw [made_block]
      exact .closed (sound.closed_ended emits hopen (.inr hforks)) nofun
    · intro s hs
      rw [made_block] at hs
      rw [made_uses]
      exact (sound.exits_used emits _ s hs).imp_right And.right
  have closed_edited : Edited made l (ended i (a.exits i target)) closed := ⟨rfl, rfl, rfl⟩
  refine closed_sound.enter (l := a.freshLabel) ?_ rfl ?_ ⟨rfl, ?_, rfl⟩ rfl rfl
  · rw [closed_edited.uses fun _ => rfl, made_uses]
    exact .inr rfl
  · have h : made.block a.freshLabel = (a.grow { adopted := true }).block a.freshLabel :=
      block_congr rfl
    rw [closed_edited.observe DraftBlock.marked fun _ => rfl, h, block_grow_fresh]
  · have hlabel : a.freshLabel = (a.editBlock l (ended i (a.exits i target))).freshLabel := by
      simp [freshLabel, editBlock]
    have hblocks : (((a.grow { adopted := true }).editBlock l (ended i (a.exits i target))).editBlock
        a.freshLabel ({ · with marked := true })).blocks =
          ((a.editBlock l (ended i (a.exits i target))).grow
            { adopted := true, marked := true }).blocks := by
      rw [editBlock_grow_of_owned owned, hlabel, editBlock_grow_fresh]
    exact hblocks.symm

theorem Sound.append {i : Instruction Local} {target : Option Label} (sound : a.Sound)
    (hcurrent : a.current = some l) (emits : a.Emits i target) :
    ((a.push l i).route l i target).state.Sound := by
  have uses := sound.current l hcurrent
  have hopen := sound.open_current hcurrent
  cases hforks : a.forks i with
  | true =>
    rw [route_of_forks hopen hforks]
    exact sound.fork hcurrent emits hforks
  | false =>
    rw [route_of_not_forks hopen hcurrent hforks]
    refine sound.edit uses.1 (f := ended i (a.exits i target)) ⟨rfl, rfl, rfl⟩ rfl (fun _ => rfl)
      (fun _ h => h) ?_ ?_ ?_ ?_
    · intro m hm
      by_cases hflow : i.flow = .next
      · rw [if_pos hflow] at hm
        exact Option.some.inj hm ▸ uses
      · simp [hflow] at hm
    · intro m hm
      by_cases hflow : i.flow = .next
      · simp [hflow, hcurrent]
      · simp [hflow, hcurrent, hm.symm]
    · by_cases hflow : i.flow = .next
      · exact .opened (open_ended hopen hflow hforks) (if_pos hflow)
      · exact .closed (sound.closed_ended emits hopen (.inl hflow)) (by simp [hflow])
    · intro s hs
      obtain h | ⟨h, -⟩ := sound.exits_used emits _ s hs
      · exact h
      · simp [hforks] at h

/-- All that an appended instruction changes. -/
structure Appended (a : Assembler) (l : Label) (i : Instruction Local) (target : Option Label)
    (b : Assembler) : Prop where
  body : b.body = a.body
  frame : b.frame = a.frame
  parameters : b.parameters = a.parameters
  emitted : b.emitted = true
  current : b.current =
    if a.forks i then some a.freshLabel else if i.flow = .next then some l else none
  owned : ∀ m, b.ownsLabel m = true ↔ a.ownsLabel m = true ∨ a.forks i = true ∧ m = a.freshLabel
  block : b.block l = ended i (a.exits i target) (a.block l)
  others : ∀ m, a.ownsLabel m = true → m ≠ l → b.block m = a.block m
  fresh : a.forks i = true → b.block a.freshLabel = { adopted := true, marked := true }

theorem Sound.appended {i : Instruction Local} {target : Option Label} (sound : a.Sound)
    (hcurrent : a.current = some l) :
    Appended a l i target ((a.push l i).route l i target).state := by
  have owned := (sound.current l hcurrent).1
  have hopen := sound.open_current hcurrent
  have edited_owned {m : Label} (hm : a.ownsLabel m = true) :
      (a.editBlock l (ended i (a.exits i target))).ownsLabel m = true := ownsLabel_editBlock.trans hm
  cases hforks : a.forks i with
  | true =>
    have hlabel : (a.editBlock l (ended i (a.exits i target))).freshLabel = a.freshLabel := by
      simp [freshLabel, editBlock]
    rw [route_of_forks hopen hforks]
    refine ⟨rfl, rfl, rfl, rfl, by simp [hforks], fun m => ?_, ?_, fun m hm hne => ?_, fun _ => ?_⟩
    · change ((a.editBlock l (ended i (a.exits i target))).grow
        { adopted := true, marked := true }).ownsLabel m = true ↔ _
      rw [ownsLabel_grow, hlabel, ownsLabel_editBlock]
      simp [hforks]
    · exact (block_congr rfl).trans ((block_grow_of_owned (edited_owned owned)).trans
        (block_editBlock_self owned))
    · exact (block_congr rfl).trans ((block_grow_of_owned (edited_owned hm)).trans
        (block_editBlock_of_ne owned hm hne))
    · have h := block_grow_fresh (a := a.editBlock l (ended i (a.exits i target)))
        (b := { adopted := true, marked := true })
      rw [hlabel] at h
      exact h
  | false =>
    rw [route_of_not_forks hopen hcurrent hforks]
    refine ⟨rfl, rfl, rfl, rfl, by simp [hforks], fun m => ?_, ?_, fun m hm hne => ?_, ?_⟩
    · simp [ownsLabel, editBlock, hforks]
    · exact (block_congr rfl).trans (block_editBlock_self owned)
    · exact (block_congr rfl).trans (block_editBlock_of_ne owned hm hne)
    · simp [hforks]

theorem Step.sound {entry : Option Entry} (step : Step a entry b) (sound : a.Sound) : b.Sound := by
  cases step with
  | label => exact sound.label
  | newLocal type => exact sound.congr rfl rfl rfl rfl rfl
  | adopt l owned unused => exact sound.adopt owned unused ⟨rfl, rfl, rfl⟩ rfl rfl
  | enter l closed uses unmarked => exact sound.enter uses closed unmarked ⟨rfl, rfl, rfl⟩ rfl rfl
  | protect clause thrown uncaught uses => exact sound.protect thrown uncaught uses
  | expose exception => exact sound.expose exception
  | append l i target current operands emits => exact sound.append current emits
  | assign frame moves unassigned layout => exact sound.assign layout

theorem Steps.sound {log : List Entry} (steps : Steps a log b) (sound : a.Sound) : b.Sound := by
  induction steps with
  | refl => exact sound
  | tail _ step ih => exact step.sound ih

end Dalvik.Assembler
