import Dalvik.Proofs.Step

/-! Calls as steps: whatever a caller asks for, the body gets there by elementary steps, and the
journal of the call names exactly the instructions that they appended. Only the two calls about catch
clauses touch the clauses, and these append nothing. -/
namespace Dalvik

theorem Outcome.state_andThen {first : Outcome σ α} {next : σ → α → Outcome σ β} {P : σ → Prop}
    (h : P first.state) (hnext : ∀ value, P (next first.state value).state) :
    P (first.andThen next).state := by
  obtain ⟨result, state, events⟩ := first
  cases result with
  | error => exact h
  | ok value => exact hnext value

def Operation.isCatch : Operation → Bool
  | addCatch .. | removeCatch _ => true
  | _ => false

namespace Assembler

variable {α β : Type} {a : Assembler}

/-- The outcome is reached from `a` by steps that append what its journal says. -/
def Leads (a : Assembler) (outcome : Outcome Assembler α) : Prop :=
  Steps a (entries outcome.events) outcome.state

/-- The outcome is reached so, and the clauses are the same all the time. -/
def Performs (a : Assembler) (outcome : Outcome Assembler α) : Prop :=
  Steady a (entries outcome.events) outcome.state

theorem Performs.leads {outcome : Outcome Assembler α} (h : a.Performs outcome) : a.Leads outcome :=
  Steady.steps h

theorem performs_ok (value : α) : a.Performs (.ok a value) := Steady.refl

theorem performs_fail (error : Error) : a.Performs (.fail a error : Outcome Assembler α) :=
  Steady.refl

theorem performs_ofExcept (result : Except Error α) : a.Performs (.ofExcept a result) :=
  Steady.refl

theorem Performs.map {outcome : Outcome Assembler α} (h : a.Performs outcome) (f : α → β) :
    a.Performs (outcome.map f) := h

theorem Performs.andThen {first : Outcome Assembler α}
    {next : Assembler → α → Outcome Assembler β} (h : a.Performs first)
    (then_ : ∀ value, first.result = .ok value → first.state.Performs (next first.state value)) :
    a.Performs (first.andThen next) := by
  obtain ⟨result, state, events⟩ := first
  cases result with
  | error e => exact h
  | ok value =>
    simp only [Performs, Outcome.andThen, entries_append]
    exact Steady.trans h (then_ value rfl)

theorem Performs.after {b : Assembler} {outcome : Outcome Assembler α} (h : b.Performs outcome)
    (before : Steady a [] b) : a.Performs outcome :=
  before.trans h

theorem adopt_cases {b : Assembler} {l : Label} (h : a.adopt l = .ok b) : a.ownsLabel l = true ∧
    ((a.block l).adopted = true ∧ b = a ∨ (a.block l).adopted = false ∧
      b = { a.editBlock l ({ · with adopted := true }) with order := a.order.push l }) := by
  unfold adopt at h
  split at h
  · cases h
  · rename_i howned
    refine ⟨by simpa using howned, ?_⟩
    split at h
    · rename_i hadopted
      cases h
      exact .inl ⟨hadopted, rfl⟩
    · rename_i hadopted
      cases h
      exact .inr ⟨by simpa using hadopted, rfl⟩

theorem adopt_ok {b : Assembler} {l : Label} (h : a.adopt l = .ok b) :
    Steady a [] b ∧ b.Uses l := by
  obtain ⟨owned, ⟨hadopted, rfl⟩ | ⟨unused, rfl⟩⟩ := adopt_cases h
  · exact ⟨.refl, owned, hadopted⟩
  · refine ⟨.single (Step.adopt a l owned unused) rfl, ?_, ?_⟩
    · simpa [ownsLabel, editBlock] using owned
    · change ((a.editBlock l ({ · with adopted := true })).block l).adopted = true
      rw [block_editBlock_self owned]

theorem entries_route (l : Label) (i : Instruction Local) (target : Option Label) :
    entries (a.route l i target).events = [] := by
  unfold route
  split
  · split <;> rfl
  all_goals rfl

theorem entries_appended (l : Label) (i : Instruction Local) (target : Option Label) :
    entries (.appended l i target :: ((a.push l i).route l i target).events) = [⟨l, i, target⟩] := by
  rw [← List.singleton_append, entries_append, entries_route]
  rfl

theorem route_catches (l : Label) (i : Instruction Local) (target : Option Label) :
    (a.route l i target).state.catches = a.catches := by
  unfold route
  split
  · split <;> rfl
  all_goals rfl

theorem append_cases (i : Instruction Local) (target : Option Label) :
    (∃ e, a.append i target = .fail a e) ∨
      ∃ l, a.current = some l ∧ (∀ x ∈ i.operands, a.owns x = true) ∧
        a.append i target = ((a.push l i).route l i target).note (.appended l i target) := by
  unfold append
  split
  · exact .inl ⟨_, rfl⟩
  · rename_i l hcurrent
    split
    · exact .inl ⟨_, rfl⟩
    · rename_i hforeign
      exact .inr ⟨l, hcurrent, by simpa [List.find?_eq_none] using hforeign, rfl⟩

theorem append_performs {i : Instruction Local} {target : Option Label} (emits : a.Emits i target) :
    a.Performs (a.append i target) := by
  obtain ⟨e, h⟩ | ⟨l, hcurrent, operands, h⟩ := append_cases (a := a) i target
  · rw [h]
    exact performs_fail e
  · rw [h]
    simp only [Performs, Outcome.note, entries_appended]
    exact .single (Step.append a l i target hcurrent operands emits) (route_catches ..)

theorem emits_of_admitted {i : Instruction Local}
    (admitted : Statement.Admitted a.method a.isStatic i) : a.Emits i none :=
  { typed := admitted.typed, plain := admitted.plain, labelled := by simp [admitted.unlabelled] }

theorem appendAll_performs {is : List (Instruction Local)}
    (admitted : ∀ i ∈ is, Statement.Admitted a.method a.isStatic i) : a.Performs (a.appendAll is) := by
  induction is generalizing a with
  | nil => exact performs_ok ()
  | cons i is ih =>
    have first := append_performs (emits_of_admitted (admitted i List.mem_cons_self))
    refine first.andThen fun _ _ => ih fun j hj => ?_
    -- the method of the body is still the same after the first instruction
    rw [(Steps.sameMethod first.leads).method, (Steps.sameMethod first.leads).isStatic]
    exact admitted j (List.mem_cons_of_mem i hj)

theorem emit_cases (statement : Statement) : (∃ e, a.emit statement = .fail a e) ∨
    ∃ is, (∀ i ∈ is, Statement.Admitted a.method a.isStatic i) ∧ a.emit statement = a.appendAll is := by
  unfold emit
  split
  · exact .inl ⟨_, rfl⟩
  · exact .inr ⟨_, Statement.instructions_admitted ‹_›, rfl⟩

theorem emit_performs (statement : Statement) : a.Performs (a.emit statement) := by
  obtain ⟨e, h⟩ | ⟨is, admitted, h⟩ := emit_cases (a := a) statement
  · rw [h]
    exact performs_fail e
  · rw [h]
    exact appendAll_performs admitted

theorem appendTo_cases (target : Label) {i : Instruction Local}
    (typed : (i.map Local.type).WellTyped a.method a.isStatic) (plain : i.isMoveParameter = false)
    (labelled : i.flow.hasTarget = true) : (∃ e, a.appendTo target i = .fail a e) ∨
      ∃ b, a.adopt target = .ok b ∧ b.Emits i (some target) ∧
        a.appendTo target i = b.append i (some target) := by
  unfold appendTo
  split
  · exact .inl ⟨_, rfl⟩
  · rename_i b hadopt
    obtain ⟨steady, uses⟩ := adopt_ok hadopt
    have same := steady.steps.sameMethod
    refine .inr ⟨b, hadopt, ⟨?_, plain, ?_⟩, rfl⟩
    · rwa [same.method, same.isStatic]
    · rw [if_pos labelled]
      exact ⟨target, rfl, uses⟩

theorem appendTo_performs {target : Label} {i : Instruction Local}
    (typed : (i.map Local.type).WellTyped a.method a.isStatic) (plain : i.isMoveParameter = false)
    (labelled : i.flow.hasTarget = true) : a.Performs (a.appendTo target i) := by
  obtain ⟨e, h⟩ | ⟨b, hadopt, emits, h⟩ := appendTo_cases target typed plain labelled
  · rw [h]
    exact performs_fail e
  · rw [h]
    exact (append_performs emits).after (adopt_ok hadopt).1

theorem jump_performs (target : Label) : a.Performs (a.jump target) :=
  appendTo_performs trivial rfl rfl

theorem branch_cases (comparison : Comparison) (target : Label) (x : Local) (y : Option Local) :
    (∃ e, a.branch comparison target x y = .fail a e) ∨
      ((Instruction.branch comparison x y).map Local.type).WellTyped a.method a.isStatic ∧
        a.branch comparison target x y = a.appendTo target (.branch comparison x y) := by
  cases y with
  | none =>
    simp only [branch]
    split
    · exact .inl ⟨_, rfl⟩
    · rename_i hx
      exact .inr ⟨⟨nofun, Typing.branchOperand_eq_ok.mp hx⟩, rfl⟩
  | some y =>
    simp only [branch]
    split
    · exact .inl ⟨_, rfl⟩
    · rename_i hchecked
      simp only [bind_eq_ok, Typing.same_eq_ok, Typing.branchOperand_eq_ok] at hchecked
      obtain ⟨-, hsame, hx⟩ := hchecked
      exact .inr ⟨⟨by simp [hsame], hx⟩, rfl⟩

theorem branch_performs (comparison : Comparison) (target : Label) (x : Local) (y : Option Local) :
    a.Performs (a.branch comparison target x y) := by
  obtain ⟨e, h⟩ | ⟨typed, h⟩ := branch_cases (a := a) comparison target x y
  · rw [h]
    exact performs_fail e
  · rw [h]
    exact appendTo_performs typed rfl rfl

theorem push_editBlock {l c : Label} {f : DraftBlock → DraftBlock} {i : Instruction Local}
    (h : ∀ b : DraftBlock, { f b with instructions := (f b).instructions.push i } =
      f { b with instructions := b.instructions.push i }) :
    (a.editBlock l f).push c i = (a.push c i).editBlock l f := by
  unfold push
  rw [editBlock_comm fun b => (h b).symm]
  rfl

theorem close_editBlock {l c : Label} {f edges : DraftBlock → DraftBlock}
    (h : ∀ b, f (edges b) = edges (f b)) :
    (a.editBlock l f).close c edges = (a.close c edges).editBlock l f := by
  unfold close
  rw [editBlock_comm h]
  rfl

def jumped (a : Assembler) (c l : Label) : Assembler :=
  (a.push c .goto).close c ({ · with primary := some l })

/-- Marking a label and then closing the open block with a jump to it comes to the same as closing
the block first. -/
theorem jump_marked {l c : Label} (uses : a.Uses l) (current : a.current = some c) :
    (a.editBlock l ({ · with marked := true })).jump l =
      ⟨.ok (), (a.jumped c l).editBlock l ({ · with marked := true }),
        [.appended c .goto (some l)]⟩ := by
  have owned : (a.editBlock l ({ · with marked := true })).ownsLabel l = true :=
    ownsLabel_editBlock.trans uses.1
  have hadopted : ((a.editBlock l ({ · with marked := true })).block l).adopted = true := by
    rw [block_editBlock_self uses.1]
    exact uses.2
  have hcurrent : (a.editBlock l ({ · with marked := true })).current = some c := current
  simp only [jump, appendTo, adopt, owned, hadopted, append, hcurrent, Bool.not_true,
    Bool.false_eq_true, if_false, if_true]
  simp only [Instruction.operands, List.find?_nil, route, Instruction.flow, Outcome.note, Outcome.ok]
  rw [push_editBlock fun _ => rfl, close_editBlock]
  · rfl
  · intro b
    rfl

theorem jumped_edited (a : Assembler) (c l : Label) :
    Edited a c (fun b => { b with instructions := b.instructions.push .goto, primary := some l })
      (a.jumped c l) where
  body := rfl
  blocks := by
    have h := congrArg Assembler.blocks (editBlock_editBlock (a := a) (l := c)
      (f := fun b => { b with instructions := b.instructions.push .goto })
      (g := fun b => { b with primary := some l }))
    exact h
  catches := rfl

def entered (a : Assembler) (l : Label) : Assembler :=
  { a.editBlock l ({ · with marked := true }) with current := some l }

section Mark

variable {b : Assembler} {l c : Label} (hadopt : a.adopt l = .ok b)
include hadopt

theorem mark_of_marked (marked : (b.block l).marked = true) :
    a.mark l = .fail b (.labelAlreadyMarked l) := by
  simp [mark, hadopt, marked]

theorem mark_of_closed (unmarked : (b.block l).marked = false) (hcurrent : b.current = none) :
    a.mark l = .ok (b.entered l) () := by
  have hclosed : (b.editBlock l ({ · with marked := true })).current.isSome = false := by
    simp [editBlock, hcurrent]
  simp only [mark, hadopt, unmarked, hclosed, Bool.false_eq_true, if_false]
  rfl

theorem mark_of_open (unmarked : (b.block l).marked = false) (hcurrent : b.current = some c) :
    a.mark l = ⟨.ok (), (b.jumped c l).entered l, [.appended c .goto (some l)]⟩ := by
  have hopen : (b.editBlock l ({ · with marked := true })).current.isSome = true := by
    simp [editBlock, hcurrent]
  simp only [mark, hadopt, unmarked, hopen, Bool.false_eq_true, if_false, if_true,
    jump_marked (adopt_ok hadopt).2 hcurrent]
  rfl

end Mark

theorem mark_cases (l : Label) : (∃ e, a.mark l = .fail a e) ∨ ∃ b, a.adopt l = .ok b ∧
    ((b.block l).marked = true ∧ a.mark l = .fail b (.labelAlreadyMarked l) ∨
      (b.block l).marked = false ∧ ((b.current = none ∧ a.mark l = .ok (b.entered l) ()) ∨
        ∃ c, b.current = some c ∧
          a.mark l = ⟨.ok (), (b.jumped c l).entered l, [.appended c .goto (some l)]⟩)) := by
  cases hadopt : a.adopt l with
  | error e => exact .inl ⟨e, by simp [mark, hadopt]⟩
  | ok b =>
    refine .inr ⟨b, rfl, ?_⟩
    cases hmarked : (b.block l).marked with
    | true => exact .inl ⟨rfl, mark_of_marked hadopt hmarked⟩
    | false =>
      refine .inr ⟨rfl, ?_⟩
      cases hcurrent : b.current with
      | none => exact .inl ⟨rfl, mark_of_closed hadopt hmarked hcurrent⟩
      | some c => exact .inr ⟨c, rfl, mark_of_open hadopt hmarked hcurrent⟩

theorem jumped_step {l c : Label} (uses : a.Uses l) (current : a.current = some c) :
    Step a (some ⟨c, .goto, some l⟩) (a.jumped c l) :=
  Step.append a c .goto (some l) current (by simp [Instruction.operands])
    { typed := trivial, plain := rfl, labelled := ⟨l, rfl, uses⟩ }

theorem jumped_entered_step {l c : Label} (uses : a.Uses l) (unmarked : (a.block l).marked = false) :
    Step (a.jumped c l) none ((a.jumped c l).entered l) :=
  Step.enter (a.jumped c l) l rfl (((jumped_edited a c l).uses fun _ => rfl).mpr uses)
    (((jumped_edited a c l).observe DraftBlock.marked fun _ => rfl).trans unmarked)

theorem mark_performs (l : Label) : a.Performs (a.mark l) := by
  obtain ⟨e, h⟩ | ⟨b, hadopt, ⟨-, h⟩ | ⟨unmarked, ⟨closed, h⟩ | ⟨c, current, h⟩⟩⟩ := mark_cases (a := a) l
  all_goals rw [h]
  · exact performs_fail e
  all_goals
    obtain ⟨steady, uses⟩ := adopt_ok hadopt
    refine Performs.after ?_ steady
  · exact performs_fail _
  · exact .single (Step.enter b l closed uses unmarked) rfl
  · exact (Steady.single (jumped_step uses current) rfl).tail (jumped_entered_step uses unmarked) rfl

theorem addCatch_steps (exception : Ty) (handler : Label) :
    Steps a [] (a.addCatch exception handler).state := by
  unfold addCatch
  split
  · exact .refl
  · rename_i hthrown
    split
    · exact .refl
    · rename_i hcaught
      split
      · exact .refl
      · rename_i b hadopt
        obtain ⟨steady, uses⟩ := adopt_ok hadopt
        refine steady.steps.tail (Step.protect b ⟨exception, handler⟩ ?_ ?_ uses)
        · simpa using hthrown
        · rw [steady.catches]
          simpa using hcaught

theorem removeCatch_steps (exception : Ty) : Steps a [] (a.removeCatch exception).state := by
  unfold removeCatch
  split
  · exact .refl
  · exact (Step.expose a exception).single

theorem assignRegisters_cases (a : Assembler) : (∃ e, a.assignRegisters = .fail a e) ∨
    ∃ frame moves, a.frame = none ∧ a.layout = .ok (frame, moves) ∧
      a.assignRegisters = ⟨.ok (), { a.prepend moves with frame := some frame },
        [.assigned frame.size frame.parameterSize a.method]⟩ := by
  unfold assignRegisters
  split
  · exact .inl ⟨_, rfl⟩
  · rename_i hframe
    split
    · exact .inl ⟨_, rfl⟩
    · rename_i frame moves hlayout
      exact .inr ⟨frame, moves, by simpa using hframe, hlayout, rfl⟩

theorem assignRegisters_performs : a.Performs a.assignRegisters := by
  obtain ⟨e, h⟩ | ⟨frame, moves, unassigned, layout, h⟩ := a.assignRegisters_cases
  · rw [h]
    exact performs_fail e
  · rw [h]
    refine .single (Step.assign a frame moves unassigned layout) ?_
    change (a.prepend moves).catches = a.catches
    unfold prepend
    split <;> rfl

theorem assignRegisters_leads : a.Leads a.assignRegisters := assignRegisters_performs.leads

theorem ensureRegisters_performs : a.Performs a.ensureRegisters := by
  unfold ensureRegisters
  split
  · exact performs_ok ()
  · exact assignRegisters_performs

theorem complete_state : a.complete.state = a := by
  simp only [complete]
  split
  · rfl
  · split
    · rfl
    · split <;> rfl

theorem assignRegisters_state : a.assignRegisters.state = a.ensureRegisters.state := by
  unfold ensureRegisters
  split
  · simp [assignRegisters, *, Outcome.fail, Outcome.ok]
  · rfl

theorem finish_state : a.finish.state = if a.emitted then a.ensureRegisters.state else a := by
  cases emitted : a.emitted with
  | false => simp [finish, isEmpty, emitted, Outcome.fail]
  | true =>
    simp only [finish, isEmpty, emitted, Bool.not_true, Bool.false_eq_true, if_false, if_true]
    exact Outcome.state_andThen (P := fun b => b = a.ensureRegisters.state) rfl fun _ => complete_state

theorem complete_performs : a.Performs a.complete := by
  simp only [complete]
  split
  · exact performs_fail _
  · split
    · exact performs_fail _
    · split
      · exact performs_fail _
      · exact Steady.refl

theorem finish_performs : a.Performs a.finish := by
  unfold finish
  split
  · exact performs_fail _
  · exact ensureRegisters_performs.andThen fun _ _ => complete_performs

theorem newLocal_cases (type : Ty) : (∃ e, a.newLocal type = .fail a e) ∨
    a.emitted = false ∧ a.frame = none ∧ type.isVoid = false ∧
      a.newLocal type = .ok { a with
        locals := a.locals.push ⟨a.body, a.nextLocal, type⟩
        nextLocal := a.nextLocal + 1 } ⟨a.body, a.nextLocal, type⟩ := by
  unfold newLocal
  split
  · exact .inl ⟨_, rfl⟩
  · rename_i hearly
    split
    · exact .inl ⟨_, rfl⟩
    · rename_i hvalue
      simp only [Bool.or_eq_true, not_or, Bool.not_eq_true, Option.isSome_eq_false_iff,
        Option.isNone_iff_eq_none] at hearly
      exact .inr ⟨hearly.1, hearly.2, by simpa using hvalue, rfl⟩

theorem newLocal_performs (type : Ty) : a.Performs (a.newLocal type) := by
  obtain ⟨e, h⟩ | ⟨early, unassigned, value, h⟩ := newLocal_cases (a := a) type
  · rw [h]
    exact performs_fail e
  · rw [h]
    exact .single (Step.newLocal a type early unassigned value) rfl

/-- No call but the two about clauses changes the clauses. -/
theorem run_performs {operation : Operation} (h : operation.isCatch = false) :
    a.Performs (a.run operation) := by
  cases operation with
  | newLabel => exact .single (Step.label a) rfl
  | newLocal type => exact (newLocal_performs type).map _
  | parameter index type => exact performs_ofExcept _
  | receiver type => exact performs_ofExcept _
  | mark label => exact (mark_performs label).map _
  | jump label => exact (jump_performs label).map _
  | branch comparison target x y => exact (branch_performs comparison target x y).map _
  | addCatch exception handler => cases h
  | removeCatch exception => cases h
  | emit statement => exact (emit_performs statement).map _
  | assignRegisters => exact assignRegisters_performs.map _
  | register x => exact performs_ofExcept _
  | finish => exact finish_performs.map _

theorem run_silent {operation : Operation} (h : operation.isCatch = true) :
    (a.run operation).events = [] ∧ Steps a [] (a.run operation).state := by
  cases operation with
  | addCatch exception handler =>
    refine ⟨?_, addCatch_steps exception handler⟩
    simp only [run, Outcome.map, addCatch]
    split
    · rfl
    · split
      · rfl
      · split <;> rfl
  | removeCatch exception =>
    refine ⟨?_, removeCatch_steps exception⟩
    simp only [run, Outcome.map, removeCatch]
    split <;> rfl
  | _ => cases h

/-- Every call leads to its outcome by steps. -/
theorem run_leads (operation : Operation) : a.Leads (a.run operation) := by
  cases h : operation.isCatch with
  | false => exact (run_performs h).leads
  | true =>
    obtain ⟨hevents, steps⟩ := run_silent (a := a) h
    rw [Leads, hevents]
    exact steps

def journal (a : Assembler) : List Operation → List Event
  | [] => []
  | operation :: rest => (a.run operation).events ++ (a.run operation).state.journal rest

/-- The instructions that a history appends, in order: the program as the caller wrote it. -/
def log (a : Assembler) (history : List Operation) : List Entry := entries (a.journal history)

theorem runAll_steps (history : List Operation) : Steps a (a.log history) (a.runAll history) := by
  induction history generalizing a with
  | nil => exact .refl
  | cons operation rest ih =>
    have first : Steps a (entries (a.run operation).events) (a.run operation).state :=
      run_leads operation
    simp only [log, journal, entries_append]
    exact first.trans ih

end Assembler
end Dalvik
