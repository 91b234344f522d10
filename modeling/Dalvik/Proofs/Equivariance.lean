import Dalvik.Proofs.Occurrence
import Dalvik.Proofs.Renaming

/-! Calls do not depend on identities: as long as bodies are told apart, every call on a body does the
same whatever they are called. -/
namespace Dalvik

structure Outcome.Renamed (σ : BodyId → BodyId) (f : α → β) (first : Outcome Assembler α)
    (second : Outcome Assembler β) : Prop where
  result : second.result = relabel σ f first.result
  state : second.state = first.state.rename σ

namespace Outcome.Renamed

variable {σ : BodyId → BodyId} {f : α → β} {first : Outcome Assembler α} {second : Outcome Assembler β}

theorem of_ok (a : Assembler) (value : α) : Renamed σ f (.ok a value) (.ok (a.rename σ) (f value)) :=
  ⟨rfl, rfl⟩

theorem of_fail (a : Assembler) (e : Error) :
    Renamed σ f (.fail a e) (.fail (a.rename σ) (e.rename σ)) :=
  ⟨rfl, rfl⟩

theorem note (h : Renamed σ f first second) (event event' : Event) :
    Renamed σ f (first.note event) (second.note event') :=
  ⟨h.result, h.state⟩

theorem map (h : Renamed σ f first second) {g : α → γ} {g' : β → δ} {k : γ → δ}
    (agree : ∀ x, g' (f x) = k (g x)) : Renamed σ k (first.map g) (second.map g') := by
  refine ⟨?_, h.state⟩
  simp only [Outcome.map, h.result]
  cases first.result with
  | error e => rfl
  | ok x => exact congrArg Except.ok (agree x)

theorem andThen (h : Renamed σ f first second) {next : Assembler → α → Outcome Assembler γ}
    {next' : Assembler → β → Outcome Assembler δ} {g : γ → δ}
    (hnext : ∀ x, Renamed σ g (next first.state x) (next' (first.state.rename σ) (f x))) :
    Renamed σ g (first.andThen next) (second.andThen next') := by
  obtain ⟨result, state, events⟩ := first
  obtain ⟨result', state', events'⟩ := second
  obtain ⟨rfl, rfl⟩ : result' = relabel σ f result ∧ state' = state.rename σ := ⟨h.result, h.state⟩
  cases result with
  | error e => exact ⟨rfl, rfl⟩
  | ok x => exact ⟨(hnext x).result, (hnext x).state⟩

end Outcome.Renamed

namespace Assembler

variable {σ : BodyId → BodyId} {a : Assembler}

section Blocks

theorem map_modify_rename {f f' : DraftBlock → DraftBlock} (blocks : Array DraftBlock) (n : Nat)
    (h : ∀ b, f' (b.rename σ) = (f b).rename σ) :
    (blocks.map (DraftBlock.rename σ)).modify n f' =
      (blocks.modify n f).map (DraftBlock.rename σ) := by
  apply Array.ext
  · simp
  · intro i hi hi'
    simp only [Array.getElem_modify, Array.getElem_map]
    split <;> simp [h]

theorem editBlock_rename {f f' : DraftBlock → DraftBlock} (l : Label)
    (h : ∀ b, f' (b.rename σ) = (f b).rename σ) :
    (a.rename σ).editBlock (l.rename σ) f' = (a.editBlock l f).rename σ := by
  simp only [editBlock, rename, Label.rename, map_modify_rename a.blocks l.index h]

theorem rename_blank (adopted marked : Bool) :
    DraftBlock.rename σ { adopted, marked } = { adopted, marked } := by
  simp [DraftBlock.rename]

@[simp] theorem block_rename (l : Label) :
    (a.rename σ).block (l.rename σ) = (a.block l).rename σ := by
  simp only [block, rename, Label.rename, Array.getD_eq_getD_getElem?, Array.getElem?_map]
  cases a.blocks[l.index]? with
  | none => exact (rename_blank false false).symm
  | some b => rfl

@[simp] theorem freshLabel_rename : (a.rename σ).freshLabel = a.freshLabel.rename σ := by
  simp [freshLabel, rename, Label.rename]

theorem split_rename (l : Label) (alternate : Option Label) (handlers : List CatchClause) :
    (a.rename σ).split (l.rename σ) (alternate.map (Label.rename σ))
        (handlers.map (CatchClause.rename σ)) =
      (a.split l alternate handlers).rename σ := by
  simp only [split, freshLabel_rename]
  rw [editBlock_rename (f := ({ · with primary := some a.freshLabel, alternate, handlers })) l
    fun _ => rfl]
  simp only [rename, Array.map_push, rename_blank, Option.map_some]

theorem close_rename (l : Label) {f f' : DraftBlock → DraftBlock}
    (h : ∀ b, f' (b.rename σ) = (f b).rename σ) :
    (a.rename σ).close (l.rename σ) f' = (a.close l f).rename σ := by
  rw [close, editBlock_rename l h]
  rfl

theorem push_rename (l : Label) (i : Instruction Local) :
    (a.rename σ).push (l.rename σ) (i.rename σ) = (a.push l i).rename σ := by
  rw [push, editBlock_rename (f := fun b => { b with instructions := b.instructions.push i }) l]
  · rfl
  · intro b
    simp [DraftBlock.rename]

theorem prepend_rename (moves : Array (Instruction Local)) :
    (a.rename σ).prepend (moves.map (Instruction.rename σ)) = (a.prepend moves).rename σ := by
  have horder : (a.rename σ).order[0]? = a.order[0]?.map (Label.rename σ) := by
    simp [rename]
  unfold prepend
  rw [horder]
  cases a.order[0]? with
  | none => rfl
  | some entry =>
    apply editBlock_rename
    intro b
    simp [DraftBlock.rename]

theorem start_rename (id : BodyId) (method : MethodId) (isStatic : Bool) :
    (start id method isStatic).rename σ = start (σ id) method isStatic := by
  have hparameters (types : Array Ty) :
      (types.mapIdx fun index type => (⟨id, index, type⟩ : Local)).map (Local.rename σ) =
        types.mapIdx fun index type => ⟨σ id, index, type⟩ := by
    apply Array.ext
    · simp
    · intro i hi hi'
      simp [Local.rename]
  simp only [start, rename, ← hparameters, Array.getElem?_map]
  cases isStatic <;> simp [Label.rename, rename_blank]

end Blocks

section Flow

variable (injective : σ.Injective)
include injective

theorem ownsLabel_rename (l : Label) : (a.rename σ).ownsLabel (l.rename σ) = a.ownsLabel l := by
  have hbody : (σ l.body == σ a.body) = (l.body == a.body) := by
    rw [beq_eq_decide, beq_eq_decide, decide_eq_decide]
    exact injective.eq_iff
  simp [ownsLabel, rename, Label.rename, hbody]

theorem owns_rename (x : Local) : (a.rename σ).owns (x.rename σ) = a.owns x := by
  simp only [owns, rename, Local.rename]
  rw [beq_eq_decide, beq_eq_decide, decide_eq_decide]
  exact injective.eq_iff

theorem adopt_rename (l : Label) :
    (a.rename σ).adopt (l.rename σ) = relabel σ (rename σ) (a.adopt l) := by
  have hadopted : ((a.block l).rename σ).adopted = (a.block l).adopted := rfl
  unfold adopt
  rw [ownsLabel_rename injective, block_rename, hadopted]
  split
  · rfl
  · split
    · rfl
    · rw [editBlock_rename (f := ({ · with adopted := true })) l fun _ => rfl]
      simp [rename, relabel]

omit injective in
theorem route_rename (l : Label) (i : Instruction Local) (target : Option Label) :
    Outcome.Renamed σ id (a.route l i target)
      ((a.rename σ).route (l.rename σ) (i.rename σ) (target.map (Label.rename σ))) := by
  have hcatches : (a.rename σ).catches.isEmpty = a.catches.isEmpty := by simp [rename]
  simp only [route, Instruction.flow_rename, Instruction.canThrow_rename, hcatches]
  cases i.flow with
  | next =>
    by_cases h : (i.canThrow && !a.catches.isEmpty) = true
    · simp only [h, if_true]
      apply Outcome.Renamed.note
      exact ⟨rfl, split_rename l none a.catches⟩
    · simp only [h]
      exact .of_ok a ()
  | goto => exact ⟨rfl, close_rename l fun _ => rfl⟩
  | branch =>
    apply Outcome.Renamed.note
    exact ⟨rfl, split_rename l target []⟩
  | leave => exact ⟨rfl, close_rename l fun _ => rfl⟩
  | raise => exact ⟨rfl, close_rename l fun _ => rfl⟩

theorem append_rename (i : Instruction Local) (target : Option Label) :
    Outcome.Renamed σ id (a.append i target)
      ((a.rename σ).append (i.rename σ) (target.map (Label.rename σ))) := by
  have hcurrent : (a.rename σ).current = a.current.map (Label.rename σ) := rfl
  have hforeign : (i.rename σ).operands.find? (fun x => !(a.rename σ).owns x) =
      (i.operands.find? fun x => !a.owns x).map (Local.rename σ) := by
    simp only [Instruction.operands_rename, List.find?_map, Function.comp_def, owns_rename injective]
  unfold append
  rw [hcurrent]
  cases a.current with
  | none => exact .of_fail a _
  | some l =>
    simp only [Option.map_some, hforeign]
    cases i.operands.find? fun x => !a.owns x with
    | some x => exact .of_fail a _
    | none =>
      simp only [Option.map_none]
      apply Outcome.Renamed.note
      rw [push_rename]
      exact route_rename l i target

theorem appendAll_rename (is : List (Instruction Local)) :
    Outcome.Renamed σ id (a.appendAll is)
      ((a.rename σ).appendAll (is.map (Instruction.rename σ))) := by
  induction is generalizing a with
  | nil => exact .of_ok a ()
  | cons i is ih => exact (append_rename injective i none).andThen fun _ => ih

theorem appendTo_rename (target : Label) (i : Instruction Local) :
    Outcome.Renamed σ id (a.appendTo target i)
      ((a.rename σ).appendTo (target.rename σ) (i.rename σ)) := by
  unfold appendTo
  rw [adopt_rename injective]
  cases a.adopt target with
  | error e => exact .of_fail a e
  | ok b => exact append_rename injective i (some target)

theorem mark_rename (l : Label) :
    Outcome.Renamed σ id (a.mark l) ((a.rename σ).mark (l.rename σ)) := by
  unfold mark
  rw [adopt_rename injective]
  cases a.adopt l with
  | error e => exact .of_fail a e
  | ok b =>
    have hmarked : ((b.block l).rename σ).marked = (b.block l).marked := rfl
    simp only [relabel, block_rename, hmarked]
    by_cases h : (b.block l).marked = true
    · simp only [h, if_true]
      exact .of_fail b _
    · simp only [h]
      rw [editBlock_rename (f := ({ · with marked := true })) l fun _ => rfl]
      generalize b.editBlock l ({ · with marked := true }) = c
      have hopen : (c.rename σ).current.isSome = c.current.isSome := by simp [rename]
      have hclosed : Outcome.Renamed σ id (if c.current.isSome then c.jump l else .ok c ())
          (if (c.rename σ).current.isSome then (c.rename σ).jump (l.rename σ)
            else .ok (c.rename σ) ()) := by
        rw [hopen]
        split
        · exact appendTo_rename injective l .goto
        · exact .of_ok c ()
      exact hclosed.andThen fun _ => ⟨rfl, rfl⟩

theorem addCatch_rename (exception : Ty) (handler : Label) :
    Outcome.Renamed σ id (a.addCatch exception handler)
      ((a.rename σ).addCatch exception (handler.rename σ)) := by
  have hcaught : (a.rename σ).catches.any (·.exception == exception) =
      a.catches.any (·.exception == exception) := by
    simp [rename, CatchClause.rename, Function.comp_def]
  unfold addCatch
  rw [hcaught, adopt_rename injective]
  split
  · exact .of_fail a _
  · split
    · exact .of_fail a _
    · cases a.adopt handler with
      | error e => exact .of_fail a e
      | ok b => exact ⟨rfl, rfl⟩

omit injective in
theorem removeCatch_rename (exception : Ty) :
    Outcome.Renamed σ (Label.rename σ) (a.removeCatch exception)
      ((a.rename σ).removeCatch exception) := by
  have hfind : (a.rename σ).catches.find? (·.exception == exception) =
      (a.catches.find? (·.exception == exception)).map (CatchClause.rename σ) := by
    simp only [rename, List.find?_map]
    rfl
  have herase : (a.rename σ).catches.eraseP (·.exception == exception) =
      (a.catches.eraseP (·.exception == exception)).map (CatchClause.rename σ) := by
    simp only [rename, List.eraseP_map]
    rfl
  unfold removeCatch
  rw [hfind, herase]
  cases a.catches.find? (·.exception == exception) with
  | none => exact .of_fail a _
  | some clause => exact ⟨rfl, rfl⟩

theorem emit_rename (statement : Statement) :
    Outcome.Renamed σ id (a.emit statement) ((a.rename σ).emit (statement.rename σ)) := by
  have hmethod : (a.rename σ).method = a.method := rfl
  unfold emit
  rw [hmethod, Statement.instructions_rename]
  cases statement.instructions a.method with
  | error e => exact .of_fail a e
  | ok is => exact appendAll_rename injective is

theorem branch_rename (comparison : Comparison) (target : Label) (x : Local) (y : Option Local) :
    Outcome.Renamed σ id (a.branch comparison target x y)
      ((a.rename σ).branch comparison (target.rename σ) (x.rename σ) (y.map (Local.rename σ))) := by
  have happended := appendTo_rename (a := a) injective target (.branch comparison x y)
  have hoperand := Typing.untagged_branchOperand (σ := σ) comparison x.type
  cases y with
  | none =>
    simp only [branch, Option.map_none, Local.type_rename]
    cases h : Typing.branchOperand comparison x.type with
    | error e =>
      rw [h] at hoperand
      exact ⟨hoperand.symm, rfl⟩
    | ok => exact happended
  | some y =>
    have hsame : Untagged σ (Typing.same .comparison x.type y.type) := Typing.untagged_require rfl
    simp only [branch, Option.map_some, Local.type_rename]
    cases h : Typing.same .comparison x.type y.type with
    | error e =>
      rw [h] at hsame
      exact ⟨hsame.symm, rfl⟩
    | ok =>
      cases h' : Typing.branchOperand comparison x.type with
      | error e =>
        rw [h'] at hoperand
        exact ⟨hoperand.symm, rfl⟩
      | ok => exact happended

omit injective in
theorem newLocal_rename (type : Ty) :
    Outcome.Renamed σ (Local.rename σ) (a.newLocal type) ((a.rename σ).newLocal type) := by
  have hlate : ((a.rename σ).emitted || (a.rename σ).frame.isSome) =
      (a.emitted || a.frame.isSome) := rfl
  unfold newLocal
  rw [hlate]
  split
  · exact .of_fail a _
  · split
    · exact .of_fail a _
    · refine ⟨rfl, ?_⟩
      simp [Outcome.ok, rename, Local.rename]

omit injective in
theorem newLabel_rename :
    Outcome.Renamed σ (Label.rename σ) a.newLabel (a.rename σ).newLabel := by
  unfold newLabel
  rw [freshLabel_rename]
  refine ⟨rfl, ?_⟩
  simp [Outcome.ok, rename, rename_blank]

end Flow

section Frame

theorem asked_rename (role : Role) (type : Ty) (x : Local) :
    asked role type (x.rename σ) = relabel σ (Local.rename σ) (asked role type x) := by
  unfold asked
  rw [Local.type_rename]
  split <;> rfl

theorem askParameter_rename (index : Nat) (type : Ty) :
    (a.rename σ).askParameter index type =
      relabel σ (Local.rename σ) (a.askParameter index type) := by
  have hfound (n : Nat) : (if index < a.method.parameters.length then
      (a.rename σ).parameters[n]? else none) =
      (if index < a.method.parameters.length then a.parameters[n]? else none).map
        (Local.rename σ) := by
    split <;> simp [rename]
  have hmethod : (a.rename σ).method = a.method := rfl
  have hstatic : (a.rename σ).isStatic = a.isStatic := rfl
  simp only [askParameter, hmethod, hstatic, hfound]
  cases (if index < a.method.parameters.length then
      a.parameters[index + if a.isStatic then 0 else 1]? else none) with
  | none => rfl
  | some x => exact asked_rename .parameter type x

theorem askReceiver_rename (type : Ty) :
    (a.rename σ).askReceiver type = relabel σ (Local.rename σ) (a.askReceiver type) := by
  have hreceiver : (a.rename σ).receiver = a.receiver.map (Local.rename σ) := rfl
  unfold askReceiver
  rw [hreceiver]
  cases a.receiver with
  | none => rfl
  | some x => exact asked_rename .thisType type x

theorem registerNumber_rename (n : Nat) : registerNumber n = relabel σ id (registerNumber n) := by
  unfold registerNumber
  split <;> rfl

theorem place_rename (p : Placement) (x : Local) :
    p.place (x.rename σ) = relabel σ id (p.place x) := by
  rw [Placement.place, Placement.place, relabel_bind_id, ← registerNumber_rename]
  rfl

theorem placeArgument_rename (first : Nat) (s : Placement × Array (Instruction Local)) (x : Local) :
    Placement.placeArgument first (s.1, s.2.map (Instruction.rename σ)) (x.rename σ) =
      relabel σ (fun s => (s.1, s.2.map (Instruction.rename σ)))
        (Placement.placeArgument first s x) := by
  simp only [Placement.placeArgument, place_rename, relabel_bind_id, ← registerNumber_rename,
    relabel_pure, Array.map_push]
  rfl

theorem layout_rename : (a.rename σ).layout =
    relabel σ (fun laid => (laid.1, laid.2.map (Instruction.rename σ))) a.layout := by
  have hlocals (p : Placement) : (a.rename σ).locals.foldlM Placement.place p =
      relabel σ id (a.locals.foldlM Placement.place p) := by
    simp only [rename, ← Array.foldlM_toList, Array.toList_map]
    exact relabel_foldlM place_rename a.locals.toList p
  have hparameters (first : Nat) (p : Placement) :
      (a.rename σ).parameters.foldlM (Placement.placeArgument first) (p, #[]) =
        relabel σ (fun s => (s.1, s.2.map (Instruction.rename σ)))
          (a.parameters.foldlM (Placement.placeArgument first) (p, #[])) := by
    have h := relabel_foldlM (placeArgument_rename (σ := σ) first) a.parameters.toList (p, #[])
    simp only [rename, ← Array.foldlM_toList, Array.toList_map]
    rwa [Array.map_empty] at h
  unfold layout
  symm
  rw [hlocals]
  apply relabel_bind
  intro locals
  simp only [id, hparameters]
  apply relabel_bind
  intro s
  simp only [relabel_bind_id, ← registerNumber_rename, relabel_pure]

theorem assignRegisters_rename :
    Outcome.Renamed σ id a.assignRegisters (a.rename σ).assignRegisters := by
  have hframe : (a.rename σ).frame = a.frame := rfl
  unfold assignRegisters
  rw [hframe, layout_rename]
  split
  · exact .of_fail a _
  · cases a.layout with
    | error e => exact .of_fail a e
    | ok laid =>
      apply Outcome.Renamed.note
      refine ⟨rfl, ?_⟩
      simp only [Outcome.ok, prepend_rename]
      rfl

theorem register_rename (injective : σ.Injective) (x : Local) :
    (a.rename σ).register (x.rename σ) = relabel σ id (a.register x) := by
  have hforeign : (x.rename σ).body ≠ (a.rename σ).body ↔ x.body ≠ a.body := injective.ne_iff
  have hframe : (a.rename σ).frame = a.frame := rfl
  have hindex : (x.rename σ).index = x.index := rfl
  simp only [register, hforeign, hframe, hindex]
  split
  · rfl
  · cases a.frame with
    | none => rfl
    | some frame => cases h : frame.numbers[x.index]? <;> simp [h, relabel, Error.rename]

end Frame

section Finish

variable (injective : σ.Injective)

@[simp] theorem isEmpty_rename (b : DraftBlock) : (b.rename σ).isEmpty = b.isEmpty := by
  rw [Bool.eq_iff_iff]
  simp [DraftBlock.isEmpty, DraftBlock.rename]

theorem successors_rename (b : DraftBlock) :
    (b.rename σ).successors = b.successors.map (Label.rename σ) := by
  have hhandlers : (b.handlers.map (CatchClause.rename σ)).map CatchClause.handler =
      (b.handlers.map CatchClause.handler).map (Label.rename σ) := by
    rw [List.map_map, List.map_map]
    rfl
  simp only [DraftBlock.successors, DraftBlock.rename, hhandlers, List.map_append]
  cases b.primary <;> cases b.alternate <;> rfl

theorem pending_rename : (a.rename σ).pending = a.pending.map (Label.rename σ) := by
  have hcurrent : (a.rename σ).current = a.current.map (Label.rename σ) := rfl
  unfold pending
  rw [hcurrent]
  cases a.current with
  | none => rfl
  | some l => 
    simp only [Option.map_some, Option.filter_some, block_rename, isEmpty_rename]
    split <;> rfl

theorem surviving_rename : (a.rename σ).surviving = a.surviving.map (Label.rename σ) := by
  have horder : (a.rename σ).order.toList = a.order.toList.map (Label.rename σ) := by
    simp [rename]
  unfold surviving
  simp only [horder, List.filter_map, Function.comp_def, block_rename, isEmpty_rename]

include injective

theorem unplaced_rename : (a.rename σ).unplaced = a.unplaced.map (Label.rename σ) := by
  unfold unplaced
  rw [surviving_rename, List.flatMap_map, ← eraseDups_map (Label.rename_injective injective)]
  congr 1
  simp only [block_rename, successors_rename, ← List.map_flatMap, List.filter_map, Function.comp_def,
    isEmpty_rename]

omit injective in
theorem idxOf?_map {α β : Type} [DecidableEq α] [DecidableEq β] {f : α → β} (h : f.Injective)
    (xs : List α) (x : α) : (xs.map f).idxOf? (f x) = xs.idxOf? x := by
  simp only [List.idxOf?, List.findIdx?_map, Function.comp_def]
  congr 1
  funext y
  rw [beq_eq_decide, beq_eq_decide, decide_eq_decide]
  exact h.eq_iff

theorem finishBlock_rename (labels : List Label) (n : Nat) (l : Label) :
    (a.rename σ).finishBlock (labels.map (Label.rename σ)) n (l.rename σ) =
      relabel σ id (a.finishBlock labels n l) := by
  have hcode : (((a.block l).rename σ).instructions.toList.mapM fun i =>
        i.traverse (a.rename σ).register) =
      relabel σ id ((a.block l).instructions.toList.mapM fun i => i.traverse a.register) := by
    simp only [DraftBlock.rename, Array.toList_map]
    exact relabel_mapM (Instruction.traverse_rename (register_rename injective)) _
  have hindex (l : Label) : (labels.map (Label.rename σ)).idxOf? (l.rename σ) = labels.idxOf? l :=
    idxOf?_map (Label.rename_injective injective) labels l
  simp only [finishBlock, block_rename, hcode, relabel_bind_id, relabel_pure]
  simp only [DraftBlock.rename, CatchClause.rename, Option.bind_map, List.filterMap_map,
    Function.comp_def, hindex, id]

theorem finishBlocks_rename : (a.rename σ).finishBlocks = relabel σ id a.finishBlocks := by
  simp only [finishBlocks, surviving_rename, List.zipIdx_map]
  apply relabel_mapM
  intro p
  exact finishBlock_rename injective a.surviving p.2 p.1

theorem complete_rename : Outcome.Renamed σ id a.complete (a.rename σ).complete := by
  have hframe : (a.rename σ).frame = a.frame := rfl
  have hended : ((a.rename σ).pending.isSome || !(a.rename σ).unplaced.isEmpty) =
      (a.pending.isSome || !a.unplaced.isEmpty) := by
    simp [pending_rename, unplaced_rename injective]
  simp only [complete, hended, hframe, finishBlocks_rename injective]
  split
  · rw [pending_rename, unplaced_rename injective]
    exact .of_fail a _
  · cases a.frame with
    | none => exact .of_fail a _
    | some frame =>
      cases a.finishBlocks with
      | error e => exact .of_fail a e
      | ok blocks => exact ⟨rfl, rfl⟩

theorem finish_rename : Outcome.Renamed σ id a.finish (a.rename σ).finish := by
  have hempty : (a.rename σ).isEmpty = a.isEmpty := rfl
  have hfirst : (a.rename σ).order[0]? = a.order[0]?.map (Label.rename σ) := by simp [rename]
  have hassigned : (a.rename σ).frame.isSome = a.frame.isSome := rfl
  have hensured : Outcome.Renamed σ id a.ensureRegisters (a.rename σ).ensureRegisters := by
    unfold ensureRegisters
    rw [hassigned]
    split
    · exact .of_ok a ()
    · exact assignRegisters_rename
  unfold finish
  rw [hempty, hfirst]
  split
  · exact .of_fail a _
  · exact hensured.andThen fun _ => complete_rename injective

end Finish

variable (injective : σ.Injective)
include injective

/-- A call does the same under other identities. -/
theorem run_rename (operation : Operation) :
    Outcome.Renamed σ (Reply.rename σ) (a.run operation)
      ((a.rename σ).run (operation.rename σ)) := by
  cases operation with
  | newLabel => exact newLabel_rename.map fun _ => rfl
  | newLocal type => exact (newLocal_rename type).map fun _ => rfl
  | parameter index type =>
    refine ⟨?_, rfl⟩
    simp only [Operation.rename, run, Outcome.ofExcept, askParameter_rename]
    cases a.askParameter index type <;> rfl
  | receiver type =>
    refine ⟨?_, rfl⟩
    simp only [Operation.rename, run, Outcome.ofExcept, askReceiver_rename]
    cases a.askReceiver type <;> rfl
  | mark label => exact (mark_rename injective label).map fun _ => rfl
  | jump label => exact (appendTo_rename injective label .goto).map fun _ => rfl
  | branch comparison target x y =>
    exact (branch_rename injective comparison target x y).map fun _ => rfl
  | addCatch exception handler => exact (addCatch_rename injective exception handler).map fun _ => rfl
  | removeCatch exception => exact (removeCatch_rename exception).map fun _ => rfl
  | emit statement => exact (emit_rename injective statement).map fun _ => rfl
  | assignRegisters => exact assignRegisters_rename.map fun _ => rfl
  | register x =>
    refine ⟨?_, rfl⟩
    simp only [Operation.rename, run, Outcome.ofExcept, register_rename injective]
    cases a.register x <;> rfl
  | finish => exact (finish_rename injective).map fun _ => rfl

theorem runAll_rename (history : List Operation) :
    (a.rename σ).runAll (history.map (Operation.rename σ)) = (a.runAll history).rename σ := by
  induction history generalizing a with
  | nil => rfl
  | cons operation rest ih =>
    have hrun := (run_rename (a := a) injective operation).state
    have hfirst : (a.rename σ).runAll ((operation :: rest).map (Operation.rename σ)) =
        ((a.rename σ).run (operation.rename σ)).state.runAll (rest.map (Operation.rename σ)) := rfl
    rw [hfirst, hrun, ih]
    rfl

end Assembler
end Dalvik
