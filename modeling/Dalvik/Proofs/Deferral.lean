import Dalvik.Proofs.Graph
import Dalvik.Proofs.Outcomes

/-! It does not matter when registers are assigned. A body that has its registers already is a body
that has none yet, with moves in front of the entry block; no call but those about registers can tell
the two apart, and in the end both are finished to the same. -/
namespace Dalvik

namespace Outcome

variable {σ τ α β : Type} {embed : σ → τ}

theorem lift_andThen {first : Outcome σ α} {next : σ → α → Outcome σ β} {next' : τ → α → Outcome τ β}
    (h : ∀ value, next' (embed first.state) value = (next first.state value).lift embed) :
    (first.lift embed).andThen next' = (first.andThen next).lift embed := by
  obtain ⟨result, state, events⟩ := first
  cases result with
  | error e => rfl
  | ok value =>
    simp only [lift, andThen]
    rw [h value]
    rfl

end Outcome

def Operation.needsRegisters : Operation → Bool
  | assignRegisters | register _ | finish => true
  | _ => false

namespace Assembler

variable {a b : Assembler} {l : Label} {frame : Frame} {moves : Array (Instruction Local)}

theorem editBlock_furnish (f : DraftBlock → DraftBlock)
    (h : ∀ d, f (d.after moves) = (f d).after moves) :
    (a.furnish frame moves).editBlock l f = (a.editBlock l f).furnish frame moves := by
  have hblocks := congrArg Assembler.blocks (editBlock_comm (a := a) (l := ⟨a.body, 0⟩) (m := l)
    (f := DraftBlock.after moves) (g := f) fun d => (h d).symm)
  simp only [furnish, editBlock] at hblocks ⊢
  rw [hblocks]

theorem grow_furnish {d : DraftBlock} (room : 0 < a.blocks.size) :
    (a.furnish frame moves).grow d = (a.grow d).furnish frame moves := by
  have hblocks := congrArg Assembler.blocks (editBlock_grow_of_owned (a := a) (l := ⟨a.body, 0⟩)
    (f := DraftBlock.after moves) (b := d) (ownsLabel_iff.mpr ⟨rfl, room⟩))
  simp only [furnish, grow, editBlock] at hblocks ⊢
  rw [hblocks]

theorem ownsLabel_furnish : (a.furnish frame moves).ownsLabel l = a.ownsLabel l := by
  simp [ownsLabel, furnish, editBlock]

theorem freshLabel_furnish : (a.furnish frame moves).freshLabel = a.freshLabel := by
  simp [freshLabel, furnish, editBlock]

theorem observe_furnish {γ : Type} (observe : DraftBlock → γ)
    (h : ∀ d : DraftBlock, observe (d.after moves) = observe d) :
    observe ((a.furnish frame moves).block l) = observe (a.block l) :=
  observe_editBlock observe h

theorem adopt_furnish :
    (a.furnish frame moves).adopt l = (a.adopt l).map (furnish frame moves) := by
  unfold adopt
  rw [ownsLabel_furnish, observe_furnish DraftBlock.adopted fun _ => rfl,
    editBlock_furnish ({ · with adopted := true }) fun _ => rfl]
  split
  · rfl
  · split <;> rfl

theorem push_furnish {i : Instruction Local} :
    (a.furnish frame moves).push l i = (a.push l i).furnish frame moves := by
  unfold push
  rw [editBlock_furnish]
  · rfl
  · simp [DraftBlock.after]

theorem close_furnish (edges : DraftBlock → DraftBlock)
    (h : ∀ d, edges (d.after moves) = (edges d).after moves) :
    (a.furnish frame moves).close l edges = (a.close l edges).furnish frame moves := by
  unfold close
  rw [editBlock_furnish edges h]
  rfl

theorem split_furnish {alternate : Option Label} {handlers : List CatchClause}
    (room : 0 < a.blocks.size) :
    (a.furnish frame moves).split l alternate handlers =
      (a.split l alternate handlers).furnish frame moves := by
  let edges : DraftBlock → DraftBlock :=
    ({ · with primary := some a.freshLabel, alternate, handlers })
  have room' : 0 < (a.editBlock l edges).blocks.size := by simpa [editBlock] using room
  have hgrow : ((a.furnish frame moves).editBlock l edges).grow { adopted := true, marked := true } =
      ((a.editBlock l edges).grow { adopted := true, marked := true }).furnish frame moves := by
    rw [editBlock_furnish edges fun _ => rfl, grow_furnish room']
  have hblocks := congrArg Assembler.blocks hgrow
  simp only [split, freshLabel_furnish]
  simp only [grow, furnish, editBlock] at hblocks ⊢
  rw [hblocks]

theorem route_furnish {i : Instruction Local} {target : Option Label} (room : 0 < a.blocks.size) :
    (a.furnish frame moves).route l i target = (a.route l i target).lift (furnish frame moves) := by
  have hclauses : (a.furnish frame moves).catches = a.catches := rfl
  unfold route
  rw [hclauses, freshLabel_furnish, split_furnish room, split_furnish room,
    close_furnish ({ · with primary := target }) fun _ => rfl, close_furnish id fun _ => rfl,
    close_furnish ({ · with handlers := a.catches }) fun _ => rfl]
  split
  · split <;> rfl
  all_goals rfl

theorem append_furnish {i : Instruction Local} {target : Option Label} (room : 0 < a.blocks.size) :
    (a.furnish frame moves).append i target = (a.append i target).lift (furnish frame moves) := by
  have howns : (a.furnish frame moves).owns = a.owns := rfl
  have hcurrent : (a.furnish frame moves).current = a.current := rfl
  unfold append
  rw [hcurrent, howns]
  cases a.current with
  | none => rfl
  | some l =>
    have room' : 0 < (a.push l i).blocks.size := by simpa [push, editBlock] using room
    simp only [push_furnish, route_furnish room']
    split <;> rfl

theorem append_room {i : Instruction Local} {target : Option Label} (room : 0 < a.blocks.size) :
    0 < (a.append i target).state.blocks.size := by
  obtain ⟨e, h⟩ | ⟨l, -, -, h⟩ := append_cases (a := a) i target
  · rw [h]
    exact room
  · have room' : 0 < (a.push l i).blocks.size := by simpa [push, editBlock] using room
    rw [h]
    change 0 < ((a.push l i).route l i target).state.blocks.size
    unfold route
    split
    · split
      · simp [Outcome.note, Outcome.ok, split]
      · exact room'
    · simpa [Outcome.ok, close, editBlock] using room'
    · simp [Outcome.note, Outcome.ok, split]
    · simpa [Outcome.ok, close, editBlock] using room'
    · simpa [Outcome.ok, close, editBlock] using room'

theorem appendAll_furnish {is : List (Instruction Local)} (room : 0 < a.blocks.size) :
    (a.furnish frame moves).appendAll is = (a.appendAll is).lift (furnish frame moves) := by
  induction is generalizing a with
  | nil => rfl
  | cons i is ih =>
    simp only [appendAll, append_furnish room]
    exact Outcome.lift_andThen fun _ => ih (append_room room)

theorem adopt_room (room : 0 < a.blocks.size) (h : a.adopt l = .ok b) : 0 < b.blocks.size := by
  obtain ⟨-, ⟨-, rfl⟩ | ⟨-, rfl⟩⟩ := adopt_cases h
  · exact room
  · simpa [editBlock] using room

theorem appendTo_furnish {i : Instruction Local} (room : 0 < a.blocks.size) :
    (a.furnish frame moves).appendTo l i = (a.appendTo l i).lift (furnish frame moves) := by
  unfold appendTo
  rw [adopt_furnish]
  cases hadopt : a.adopt l with
  | error e => rfl
  | ok b => exact append_furnish (adopt_room room hadopt)

theorem mark_furnish (room : 0 < a.blocks.size) :
    (a.furnish frame moves).mark l = (a.mark l).lift (furnish frame moves) := by
  unfold mark
  rw [adopt_furnish]
  cases hadopt : a.adopt l with
  | error e => rfl
  | ok b =>
    have room' : 0 < (b.editBlock l ({ · with marked := true })).blocks.size := by
      simpa [editBlock] using adopt_room room hadopt
    simp only [Except.map, observe_furnish DraftBlock.marked fun _ => rfl,
      editBlock_furnish ({ · with marked := true }) fun _ => rfl]
    generalize b.editBlock l ({ · with marked := true }) = c at room' ⊢
    have hclosed : (if (c.furnish frame moves).current.isSome then (c.furnish frame moves).jump l
        else .ok (c.furnish frame moves) ()) =
          (if c.current.isSome then c.jump l else .ok c ()).lift (furnish frame moves) := by
      have hcurrent : (c.furnish frame moves).current = c.current := rfl
      simp only [hcurrent, jump, appendTo_furnish room']
      split <;> rfl
    split
    · rfl
    · rw [hclosed]
      exact Outcome.lift_andThen fun _ => rfl

theorem addCatch_furnish (exception : Ty) (handler : Label) :
    (a.furnish frame moves).addCatch exception handler =
      (a.addCatch exception handler).lift (furnish frame moves) := by
  have hclauses : (a.furnish frame moves).catches = a.catches := rfl
  unfold addCatch
  rw [hclauses, adopt_furnish]
  split
  · rfl
  · split
    · rfl
    · cases a.adopt handler <;> rfl

theorem removeCatch_furnish (exception : Ty) :
    (a.furnish frame moves).removeCatch exception =
      (a.removeCatch exception).lift (furnish frame moves) := by
  have hclauses : (a.furnish frame moves).catches = a.catches := rfl
  unfold removeCatch
  rw [hclauses]
  split <;> rfl

theorem branch_furnish {comparison : Comparison} {x : Local} {y : Option Local}
    (room : 0 < a.blocks.size) : (a.furnish frame moves).branch comparison l x y =
      (a.branch comparison l x y).lift (furnish frame moves) := by
  simp only [branch, appendTo_furnish room]
  split <;> rfl

theorem emit_furnish {statement : Statement} (room : 0 < a.blocks.size) :
    (a.furnish frame moves).emit statement = (a.emit statement).lift (furnish frame moves) := by
  have hmethod : (a.furnish frame moves).method = a.method := rfl
  unfold emit
  rw [hmethod]
  split
  · rfl
  · exact appendAll_furnish room

theorem newLabel_furnish (room : 0 < a.blocks.size) :
    (a.furnish frame moves).newLabel = a.newLabel.lift (furnish frame moves) := by
  have hgrow : (a.furnish frame moves).grow {} = (a.grow {}).furnish frame moves := grow_furnish room
  simp only [newLabel, freshLabel_furnish]
  exact congrArg (Outcome.ok · a.freshLabel) hgrow

theorem newLocal_furnish {type : Ty} (emitted : a.emitted = true) :
    (a.furnish frame moves).newLocal type = (a.newLocal type).lift (furnish frame moves) := by
  have hemitted : (a.furnish frame moves).emitted = true := emitted
  simp only [newLocal, emitted, hemitted, Bool.true_or, if_true]
  rfl

/-- A call that is not about registers does the same with them as without them. -/
theorem run_furnish {operation : Operation} (room : 0 < a.blocks.size)
    (plain : operation.needsRegisters = false)
    (settled : a.emitted = true ∨ ∀ type, operation ≠ .newLocal type) :
    (a.furnish frame moves).run operation = (a.run operation).lift (furnish frame moves) := by
  cases operation with
  | newLabel => exact congrArg (Outcome.map _) (newLabel_furnish room)
  | newLocal type =>
    obtain emitted | settled := settled
    · exact congrArg (Outcome.map _) (newLocal_furnish emitted)
    · exact absurd rfl (settled type)
  | parameter index type => rfl
  | receiver type => rfl
  | mark label => exact congrArg (Outcome.map _) (mark_furnish room)
  | jump label => exact congrArg (Outcome.map _) (appendTo_furnish room)
  | branch comparison target x y => exact congrArg (Outcome.map _) (branch_furnish room)
  | addCatch exception handler => exact congrArg (Outcome.map _) (addCatch_furnish exception handler)
  | removeCatch exception => exact congrArg (Outcome.map _) (removeCatch_furnish exception)
  | emit statement => exact congrArg (Outcome.map _) (emit_furnish room)
  | assignRegisters => cases plain
  | register x => cases plain
  | finish => cases plain

theorem finish_of_empty (h : a.emitted = false) :
    a.finish = .fail a (.bodyNotFinished a.order[0]? []) := by
  simp [finish, isEmpty, h]

theorem ensureRegisters_of_frame (h : a.frame.isSome = true) : a.ensureRegisters = .ok a () := by
  simp [ensureRegisters, h]

theorem ensureRegisters_cases (a : Assembler) : (∃ e, a.ensureRegisters = .fail a e) ∨
    a.ensureRegisters.result = .ok () ∧ a.ensureRegisters.state.frame.isSome = true := by
  cases hframe : a.frame.isSome with
  | true =>
    rw [ensureRegisters_of_frame hframe]
    exact .inr ⟨rfl, hframe⟩
  | false =>
    simp only [ensureRegisters, hframe, Bool.false_eq_true, if_false]
    obtain ⟨e, h⟩ | ⟨frame, moves, -, -, h⟩ := a.assignRegisters_cases
    · exact .inl ⟨e, h⟩
    · rw [h]
      exact .inr ⟨rfl, rfl⟩

theorem finish_result (emitted : a.emitted = true) (h : a.ensureRegisters.result = .ok ()) :
    a.finish.result = a.ensureRegisters.state.complete.result := by
  have hfinish : a.finish = a.ensureRegisters.andThen fun a _ => a.complete := by
    simp [finish, isEmpty, emitted]
  rw [hfinish]
  generalize a.ensureRegisters = first at h
  obtain ⟨result, state, events⟩ := first
  cases h
  rfl

theorem finish_of_frame (emitted : a.emitted = true) (h : a.frame.isSome = true) :
    a.finish.result = a.complete.result := by
  have hensure := ensureRegisters_of_frame h
  rw [finish_result emitted (congrArg Outcome.result hensure), hensure]
  rfl

theorem finish_again (a : Assembler) : a.finish.state.finish.result = a.finish.result ∧
    a.finish.state.finish.state = a.finish.state := by
  have again (h : a.finish.state = a) : a.finish.state.finish.result = a.finish.result ∧
      a.finish.state.finish.state = a.finish.state := by
    rw [h]
    exact ⟨rfl, h⟩
  cases emitted : a.emitted with
  | false => exact again (by simp [finish_state, emitted])
  | true =>
    have hstate : a.finish.state = a.ensureRegisters.state := by simp [finish_state, emitted]
    obtain ⟨e, h⟩ | ⟨hensured, hframe⟩ := a.ensureRegisters_cases
    -- too many registers: nothing was changed, so the second attempt is the first one
    · rw [h] at hstate
      exact again hstate
    · rw [finish_result emitted hensured, hstate]
      have emitted' := ensureRegisters_steps.2.trans emitted
      generalize a.ensureRegisters.state = b at hframe emitted' ⊢
      refine ⟨finish_of_frame emitted' hframe, ?_⟩
      rw [finish_state, ensureRegisters_of_frame hframe]
      exact ite_self b

theorem Sound.ensureRegisters_eq (sound : a.Sound) (unassigned : a.frame = none)
    (layout : a.layout = .ok (frame, moves)) :
    a.ensureRegisters.result = .ok () ∧ a.ensureRegisters.state = a.furnish frame moves := by
  rw [← sound.furnish_eq]
  simp only [ensureRegisters, assignRegisters, unassigned, layout, Option.isSome_none,
    Bool.false_eq_true, if_false]
  exact ⟨rfl, rfl⟩

theorem Sound.finish_furnish (sound : a.Sound) (unassigned : a.frame = none)
    (layout : a.layout = .ok (frame, moves)) :
    (a.furnish frame moves).finish.result = a.finish.result := by
  cases emitted : a.emitted with
  -- moves of arguments do not count as code
  | false =>
    have emitted' : (a.furnish frame moves).emitted = false := emitted
    rw [finish_of_empty emitted, finish_of_empty emitted']
    rfl
  | true =>
    obtain ⟨hensured, hstate⟩ := sound.ensureRegisters_eq unassigned layout
    rw [finish_result emitted hensured, hstate]
    exact finish_of_frame emitted rfl

/-- `b` is the body `a`, or is ahead of it in that it has its registers already. In the second case no
call that is still to come creates a variable. -/
inductive Ahead (a : Assembler) (calls : List Operation) : Assembler → Prop
  | same : Ahead a calls a
  | furnished (frame : Frame) (moves : Array (Instruction Local))
      (layout : a.layout = .ok (frame, moves))
      (settled : a.emitted = true ∨ ∀ type, .newLocal type ∉ calls) :
      Ahead a calls (a.furnish frame moves)

theorem layout_congr (same : SameVariables a b) (hparameters : b.parameters = a.parameters) :
    b.layout = a.layout := by
  simp only [layout, same.locals, same.nextLocal, hparameters]

theorem run_emitted (operation : Operation) (h : a.emitted = true) :
    (a.run operation).state.emitted = true :=
  (Steps.emitted_iff (run_leads operation)).mpr (.inl h)

/-- A call after which no variable can have been created leaves the frame to come as it is. -/
theorem run_layout {operation : Operation} (plain : operation.needsRegisters = false)
    (settled : a.emitted = true ∨ ∀ type, operation ≠ .newLocal type) :
    (a.run operation).state.layout = a.layout := by
  have hparameters := (Steps.sameMethod (run_leads (a := a) operation)).parameters
  cases operation with
  | newLocal type =>
    obtain emitted | settled := settled
    · simp [run, newLocal, emitted, Outcome.map, Outcome.fail]
    · exact absurd rfl (settled type)
  | assignRegisters => cases plain
  | finish => cases plain
  | _ => exact layout_congr (run_variables rfl) hparameters

variable {calls padded : List Operation}

namespace Ahead

theorem run {operation : Operation} (ahead : Ahead a (operation :: calls) b) (sound : a.Sound)
    (plain : operation.needsRegisters = false) :
    (b.run operation).result = (a.run operation).result ∧
      Ahead (a.run operation).state calls (b.run operation).state := by
  cases ahead with
  | same => exact ⟨rfl, .same⟩
  | furnished frame moves layout settled =>
    have settled' : a.emitted = true ∨ ∀ type, operation ≠ .newLocal type :=
      settled.imp_right fun h type same => h type (same ▸ List.mem_cons_self)
    rw [run_furnish (ownsLabel_iff.mp sound.entry_owned).2 plain settled']
    refine ⟨rfl, .furnished frame moves ((run_layout plain settled').trans layout) ?_⟩
    exact settled.imp (run_emitted operation) fun h type hmem => h type (List.mem_cons_of_mem _ hmem)

theorem views (ahead : Ahead a calls b) :
    b.emitted = a.emitted ∧ b.current = a.current ∧ b.parameters = a.parameters := by
  cases ahead <;> exact ⟨rfl, rfl, rfl⟩

theorem ensure (ahead : Ahead a calls b) (sound : a.Sound) (unassigned : a.frame = none)
    (settled : a.emitted = true ∨ ∀ type, .newLocal type ∉ calls) :
    Ahead a calls b.ensureRegisters.state := by
  cases ahead with
  | same =>
    cases layout : a.layout with
    | error e =>
      have hstate : a.ensureRegisters.state = a := by
        simp [ensureRegisters, assignRegisters, unassigned, layout, Outcome.fail]
      rw [hstate]
      exact .same
    | ok laid =>
      rw [(sound.ensureRegisters_eq unassigned layout).2]
      exact .furnished laid.1 laid.2 layout settled
  | furnished frame moves layout settled =>
    rw [ensureRegisters_of_frame rfl]
    exact .furnished frame moves layout settled

theorem finish (ahead : Ahead a calls b) (sound : a.Sound) (unassigned : a.frame = none) :
    Ahead a calls b.finish.state := by
  rw [finish_state, ahead.views.1]
  split
  · rename_i emitted
    exact ahead.ensure sound unassigned (.inl emitted)
  · exact ahead

theorem finish_result (ahead : Ahead a calls b) (sound : a.Sound) (unassigned : a.frame = none) :
    b.finish.result = a.finish.result := by
  cases ahead with
  | same => rfl
  | furnished frame moves layout settled => exact sound.finish_furnish unassigned layout

end Ahead

/-- `padded` has the calls of `calls`, none of them about registers, in their order; and between them
attempts to finish the body, anywhere, and to assign registers, after the last call for a variable. -/
inductive Padded : List Operation → List Operation → Prop
  | nil : Padded [] []
  | keep {operation : Operation} {calls padded : List Operation}
      (plain : operation.needsRegisters = false) (rest : Padded calls padded) :
      Padded (operation :: calls) (operation :: padded)
  | finish {calls padded : List Operation} (rest : Padded calls padded) :
      Padded calls (.finish :: padded)
  | assign {calls padded : List Operation} (settled : ∀ type, .newLocal type ∉ calls)
      (rest : Padded calls padded) : Padded calls (.assignRegisters :: padded)

def transcript (a : Assembler) : List Operation → List (Operation × Except Error Reply)
  | [] => []
  | operation :: rest =>
    (operation, (a.run operation).result) :: (a.run operation).state.transcript rest

def visible (calls : List (Operation × Except Error Reply)) : List (Operation × Except Error Reply) :=
  calls.filter fun call => !call.1.needsRegisters

theorem Padded.ahead (h : Padded calls padded) (ahead : Ahead a calls b) (sound : a.Sound)
    (unassigned : a.frame = none) :
    visible (b.transcript padded) = a.transcript calls ∧
      Ahead (a.runAll calls) [] (b.runAll padded) ∧ (a.runAll calls).frame = none := by
  -- the calls of both histories are made side by side; an inserted one brings `b` ahead at most
  induction h generalizing a b with
  | nil => exact ⟨rfl, ahead, unassigned⟩
  | @keep operation calls padded plain rest ih =>
    obtain ⟨hresult, ahead'⟩ := ahead.run sound plain
    have unassigned' : (a.run operation).state.frame = none := by
      rw [run_frame _ _, unassigned]
      all_goals
        rintro rfl
        cases plain
    obtain ⟨hvisible, hend⟩ := ih ahead' (Steps.sound (run_leads operation) sound) unassigned'
    refine ⟨?_, hend⟩
    simp only [transcript, visible, List.filter_cons, plain, Bool.not_false, if_true, hresult]
    exact congrArg _ hvisible
  | finish rest ih => exact ih (ahead.finish sound unassigned) sound unassigned
  | assign settled rest ih =>
    have ahead' := ahead.ensure sound unassigned (.inr settled)
    rw [← assignRegisters_state] at ahead'
    exact ih ahead' sound unassigned

/-- Callers who do not ask for registers see the same of both histories, and get the same body. -/
structure SameToCallers (a : Assembler) (calls padded : List Operation) : Prop where
  replies : visible (a.transcript padded) = a.transcript calls
  isEmpty : (a.runAll padded).isEmpty = (a.runAll calls).isEmpty
  current : (a.runAll padded).current = (a.runAll calls).current
  parameterWidth : (a.runAll padded).parameterWidth = (a.runAll calls).parameterWidth
  finish : (a.runAll padded).finish.result = (a.runAll calls).finish.result

/-- It cannot be told when registers were assigned, or whether and how often a body was to be finished
before; and a body can be finished again, to the same and without any change. -/
theorem padded_sameToCallers (id : BodyId) (method : MethodId) (isStatic : Bool)
    {calls padded : List Operation} (h : Padded calls padded) :
    SameToCallers (start id method isStatic) calls padded ∧
      ∀ history, let a := (start id method isStatic).runAll history
        a.finish.state.finish.result = a.finish.result ∧
          a.finish.state.finish.state = a.finish.state := by
  have sound := start_sound id method isStatic
  obtain ⟨hvisible, ahead, unassigned⟩ := h.ahead .same sound rfl
  obtain ⟨hemitted, hcurrent, hparameters⟩ := ahead.views
  refine ⟨?_, fun history => finish_again _⟩
  exact
    { replies := hvisible
      isEmpty := by rw [isEmpty, isEmpty, hemitted]
      current := hcurrent
      parameterWidth := by rw [parameterWidth, parameterWidth, hparameters]
      finish := ahead.finish_result ((runAll_steps calls).sound sound) unassigned }

end Assembler

namespace Reduction

/-- The calls of the loop, with registers assigned too early to see what code there will be, and with
attempts to finish it before there is any code, in its middle and once more at its end. -/
def padded : List Operation :=
  [.finish, .newLocal .int, .newLabel, .finish, .newLabel, .assignRegisters, .assignRegisters,
    .addCatch .throwable handler, .emit (.move quotient divisor), .finish, .mark loop,
    .emit (.binary .divide quotient quotient divisor), .emit .returnVoid, .finish,
    .branch .gt loop quotient none, .removeCatch .throwable, .emit (.returnValue quotient),
    .assignRegisters, .jump loop, .mark handler, .emit (.returnValue divisor), .finish]

theorem calls_padded : Assembler.Padded calls padded :=
  .finish <| .keep rfl <| .keep rfl <| .finish <| .keep rfl <| .assign (by simp) <|
    .assign (by simp) <| .keep rfl <| .keep rfl <| .finish <| .keep rfl <| .keep rfl <| .keep rfl <|
    .finish <| .keep rfl <| .keep rfl <| .keep rfl <| .assign (by simp) <| .keep rfl <| .keep rfl <|
    .keep rfl <| .finish .nil

theorem padded_finished :
    Assembler.Padded calls padded ∧
      ((Assembler.start id method false).runAll (padded.take 10)).finish.result.isOk = false ∧
      ((Assembler.start id method false).runAll padded).finish.result = .ok finished :=
  have same := (Assembler.padded_sameToCallers id method false calls_padded).1
  ⟨calls_padded, by decide, same.finish.trans calls_finish⟩

end Reduction
end Dalvik
