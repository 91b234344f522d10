import Dalvik.Proofs.Variables

/-! The variables that calls name. A caller has no variables of a body but those that the body has given
out; so the operands of its instructions are among its variables. -/
namespace Dalvik

def Statement.locals : Statement → List Local
  | move dst src | unary _ dst src | numericCast dst src | typeCast dst src | cast dst src =>
    [dst, src]
  | const dst _ => [dst]
  | binary _ dst a b | compareLongs dst a b | compareFloats _ dst a b => [dst, a, b]
  | instanceGet _ dst object => [dst, object]
  | instancePut _ object src => [object, src]
  | staticGet _ dst => [dst]
  | staticPut _ src => [src]
  | newInstance dst _ args => dst :: args
  | invoke call _ result args => call.receiver?.toList ++ args ++ result.toList
  | instanceOf dst src _ => [dst, src]
  | arrayLength dst array => [dst, array]
  | newArray dst length => [dst, length]
  | arrayGet dst array index => [dst, array, index]
  | arrayPut array index src => [array, index, src]
  | monitorEnter object | monitorExit object => [object]
  | raise value | returnValue value => [value]
  | returnVoid => []

def Operation.locals : Operation → List Local
  | branch _ _ a b => a :: b.toList
  | emit statement => statement.locals
  | register x => [x]
  | _ => []

def Operation.appends : Operation → Bool
  | mark _ | jump _ | branch .. | emit _ => true
  | _ => false

namespace Statement

def code : Statement → List (Instruction Local)
  | move dst src => [.move dst src]
  | const dst value => [.const dst value]
  | unary op dst src => [.unary op dst src]
  | binary op dst a b => [.binary op dst a b]
  | numericCast dst src => [.numericCast dst src]
  | typeCast dst src => [.checkCast dst src dst.type]
  | cast dst src =>
    if dst.type.isPrimitive && src.type.isPrimitive then [.numericCast dst src]
    else [.checkCast dst src dst.type]
  | compareLongs dst a b => [.compareLongs dst a b]
  | compareFloats bias dst a b => [.compareFloats bias dst a b]
  | instanceGet field dst object => [.instanceGet field dst object]
  | instancePut field object src => [.instancePut field object src]
  | staticGet field dst => [.staticGet field dst]
  | staticPut field src => [.staticPut field src]
  | newInstance dst target args =>
    [.newInstance dst target.owner, .invoke .direct target (dst :: args)]
  | invoke call target result args =>
    .invoke call.kind target (call.receiver?.toList ++ args) ::
      if target.returns.isVoid then [] else result.toList.map .moveResult
  | instanceOf dst src type => [.instanceOf dst src type]
  | arrayLength dst array => [.arrayLength dst array]
  | newArray dst length => [.newArray dst length]
  | arrayGet dst array index => [.arrayGet dst array index]
  | arrayPut array index src => [.arrayPut array index src]
  | monitorEnter object => [.monitorEnter object]
  | monitorExit object => [.monitorExit object]
  | raise value => [.raise value]
  | returnVoid => [.returnVoid]
  | returnValue value => [.returnValue value]

theorem checkNumericCast_eq_ok {dst src : Local} {is : List (Instruction Local)}
    (h : checkNumericCast dst src = .ok is) : is = [.numericCast dst src] := by
  simp only [checkNumericCast, bind_eq_ok, pure_eq_ok] at h
  obtain ⟨_, -, _, -, rfl⟩ := h
  rfl

theorem checkTypeCast_eq_ok {dst src : Local} {is : List (Instruction Local)}
    (h : checkTypeCast dst src = .ok is) : is = [.checkCast dst src dst.type] := by
  simp only [checkTypeCast, bind_eq_ok, pure_eq_ok] at h
  obtain ⟨_, -, _, -, rfl⟩ := h
  rfl

theorem checkResult_eq_ok {method : MethodId} {result : Option Local}
    {is : List (Instruction Local)} (h : checkResult method result = .ok is) :
    is = if method.returns.isVoid then [] else result.toList.map .moveResult := by
  cases result with
  | none =>
    obtain rfl := pure_eq_ok.mp h
    simp
  | some x =>
    simp only [checkResult] at h
    split at h
    · rename_i hvoid
      rw [if_pos hvoid]
      exact (pure_eq_ok.mp h).symm
    · rename_i hvalue
      simp only [bind_eq_ok, pure_eq_ok] at h
      obtain ⟨_, -, rfl⟩ := h
      rw [if_neg hvalue]
      rfl

theorem instructions_eq_ok {method : MethodId} {statement : Statement}
    {is : List (Instruction Local)} (h : statement.instructions method = .ok is) :
    is = statement.code := by
  cases statement with
  | cast dst src =>
    simp only [instructions] at h
    split at h
    · rename_i hprimitive
      rw [code, if_pos hprimitive]
      exact checkNumericCast_eq_ok h
    · rename_i hprimitive
      rw [code, if_neg hprimitive]
      split at h
      · exact checkTypeCast_eq_ok h
      · cases h
  | numericCast dst src => exact checkNumericCast_eq_ok h
  | typeCast dst src => exact checkTypeCast_eq_ok h
  | newInstance dst target args =>
    simp only [instructions, bind_eq_ok, pure_eq_ok] at h
    obtain ⟨_, -, _, -, _, -, rfl⟩ := h
    rfl
  | invoke call target result args =>
    simp only [instructions, bind_eq_ok, pure_eq_ok] at h
    obtain ⟨_, -, stored, hresult, rfl⟩ := h
    rw [code, checkResult_eq_ok hresult]
  | binary op dst a b =>
    simp only [instructions, bind_eq_ok] at h
    obtain ⟨_, -, h⟩ := h
    split at h
    all_goals
      simp only [bind_eq_ok, pure_eq_ok] at h
      obtain ⟨_, -, _, -, rfl⟩ := h
      rfl
  | _ =>
    simp only [instructions, bind_eq_ok, pure_eq_ok] at h
    grind [code]

theorem operands_of_code {statement : Statement} :
    ∀ i ∈ statement.code, ∀ x ∈ i.operands, x ∈ statement.locals := by
  cases statement with
  | cast dst src =>
    simp only [code]
    split <;> simp [Instruction.operands, locals]
  | invoke call target result args =>
    rw [code, List.forall_mem_cons]
    refine ⟨fun x hx => List.mem_append_left _ hx, ?_⟩
    split
    · exact List.forall_mem_nil _
    · rw [List.forall_mem_map]
      intro y hy x hx
      obtain rfl := List.mem_singleton.mp hx
      exact List.mem_append_right _ hy
  | _ => simp [code, Instruction.operands, locals]

end Statement

namespace Assembler

variable {a b : Assembler}

theorem append_entries {i : Instruction Local} {target : Option Label} :
    ∀ e ∈ entries (a.append i target).events, e.instruction = i := by
  obtain ⟨e, h⟩ | ⟨l, -, -, h⟩ := append_cases (a := a) i target
  · rw [h]
    exact List.forall_mem_nil _
  · simp [h, Outcome.note, entries_appended]

theorem entries_andThen {first : Outcome Assembler α} {next : Assembler → α → Outcome Assembler β}
    {P : Entry → Prop} (hfirst : ∀ e ∈ entries first.events, P e)
    (hnext : ∀ value, ∀ e ∈ entries (next first.state value).events, P e) :
    ∀ e ∈ entries (first.andThen next).events, P e := by
  obtain ⟨result, state, events⟩ := first
  cases result with
  | error => exact hfirst
  | ok value =>
    simp only [Outcome.andThen, entries_append, List.mem_append]
    intro e he
    exact he.elim (hfirst e) (hnext value e)

theorem appendAll_entries {is : List (Instruction Local)} :
    ∀ e ∈ entries (a.appendAll is).events, e.instruction ∈ is := by
  induction is generalizing a with
  | nil => exact List.forall_mem_nil _
  | cons i is ih =>
    apply entries_andThen
    · intro e he
      rw [append_entries e he]
      exact List.mem_cons_self
    · intro _ e he
      exact List.mem_cons_of_mem i (ih e he)

theorem appendTo_entries {target : Label} {i : Instruction Local} :
    ∀ e ∈ entries (a.appendTo target i).events, e.instruction = i := by
  unfold appendTo
  split
  · exact List.forall_mem_nil _
  · exact append_entries

theorem mark_entries {l : Label} : ∀ e ∈ entries (a.mark l).events, e.instruction = .goto := by
  unfold mark
  split
  · exact List.forall_mem_nil _
  · split
    · exact List.forall_mem_nil _
    · apply entries_andThen
      · split
        · exact appendTo_entries
        · exact List.forall_mem_nil _
      · exact fun _ => List.forall_mem_nil _

theorem finish_entries : entries a.finish.events = [] := by
  have assigned : entries a.assignRegisters.events = [] := by
    obtain ⟨e, h⟩ | ⟨frame, moves, -, -, h⟩ := a.assignRegisters_cases <;> rw [h] <;> rfl
  have ensured : ∀ e ∈ entries a.ensureRegisters.events, False := by
    unfold ensureRegisters
    split
    · exact List.forall_mem_nil _
    · simp [assigned]
  rw [List.eq_nil_iff_forall_not_mem]
  unfold finish
  split
  · exact List.forall_mem_nil _
  · apply entries_andThen ensured
    intro _
    simp only [complete]
    split
    · exact List.forall_mem_nil _
    · split
      · exact List.forall_mem_nil _
      · split <;> exact List.forall_mem_nil _

theorem branch_entries {comparison : Comparison} {l : Label} {x : Local} {y : Option Local} :
    ∀ e ∈ entries (a.branch comparison l x y).events, e.instruction = .branch comparison x y := by
  obtain ⟨e, h⟩ | ⟨-, h⟩ := branch_cases (a := a) comparison l x y
  · rw [h]
    exact List.forall_mem_nil _
  · rw [h]
    exact appendTo_entries

theorem emit_entries {statement : Statement} :
    ∀ e ∈ entries (a.emit statement).events, e.instruction ∈ statement.code := by
  unfold emit
  split
  · exact List.forall_mem_nil _
  · rename_i is typed
    rw [← Statement.instructions_eq_ok typed]
    exact appendAll_entries

theorem entries_of_not_appends {operation : Operation} (h : operation.appends = false) :
    entries (a.run operation).events = [] := by
  cases operation with
  | newLocal type =>
    obtain ⟨e, hfail⟩ | ⟨-, -, -, hok⟩ := newLocal_cases (a := a) type
    · simp only [run, hfail]
      rfl
    · simp only [run, hok]
      rfl
  | addCatch exception handler =>
    have hevents : (a.run (.addCatch exception handler)).events = [] := (run_silent rfl).1
    rw [hevents]
    rfl
  | removeCatch exception =>
    have hevents : (a.run (.removeCatch exception)).events = [] := (run_silent rfl).1
    rw [hevents]
    rfl
  | assignRegisters =>
    obtain ⟨e, hfail⟩ | ⟨frame, moves, -, -, hok⟩ := a.assignRegisters_cases
    · simp only [run, hfail]
      rfl
    · simp only [run, hok]
      rfl
  | finish => exact finish_entries
  | mark | jump | branch | emit => cases h
  | _ => rfl

/-- The instructions that a call appends have no other operands than the variables it is given. -/
theorem run_operands (operation : Operation) : ∀ e ∈ entries (a.run operation).events,
    ∀ x ∈ e.instruction.operands, x ∈ operation.locals := by
  intro e he x hx
  cases operation with
  | mark label => simp [mark_entries e he, Instruction.operands] at hx
  | jump label => simp [appendTo_entries e he, Instruction.operands] at hx
  | branch comparison target y z =>
    rw [branch_entries e he] at hx
    cases z <;> exact hx
  | emit statement => exact Statement.operands_of_code _ (emit_entries e he) x hx
  | _ =>
    rw [entries_of_not_appends rfl] at he
    cases he

/-- A caller that has no variables of the body but those of its own: whatever variable of the body a
call is given, the body has it at that time. -/
def Genuine (a : Assembler) : List Operation → Prop
  | [] => True
  | operation :: rest =>
    (∀ x ∈ operation.locals, a.owns x = true → x ∈ a.frameOrder) ∧
      (a.run operation).state.Genuine rest

instance decidableGenuine (a : Assembler) :
    (history : List Operation) → Decidable (a.Genuine history)
  | [] => .isTrue trivial
  | operation :: rest =>
    have := decidableGenuine (a.run operation).state rest
    inferInstanceAs (Decidable ((∀ x ∈ operation.locals, a.owns x = true → x ∈ a.frameOrder) ∧
      (a.run operation).state.Genuine rest))

theorem frameOrder_runAll {x : Local} (hx : x ∈ a.frameOrder) (history : List Operation) :
    x ∈ (a.runAll history).frameOrder := by
  have same := (runAll_steps (a := a) history).sameMethod
  unfold frameOrder at hx ⊢
  rw [runAll_locals, same.parameters]
  simp only [List.mem_append] at hx ⊢
  obtain hx | hx := hx
  · exact .inl (.inl hx)
  · exact .inr hx

theorem Steps.owns {log : List Entry} (steps : Steps a log b) :
    ∀ e ∈ log, ∀ x ∈ e.instruction.operands, a.owns x = true := by
  induction steps with
  | refl => simp
  | @tail b c log entry steps step ih =>
    intro e he
    obtain he | he := List.mem_append.mp he
    · exact ih e he
    · cases step with
      | append l i target current operands emits =>
        obtain rfl : e = ⟨l, i, target⟩ := by simpa using he
        intro x hx
        have howns := operands x hx
        rwa [Assembler.owns, steps.sameMethod.body] at howns
      | _ => simp at he

theorem Genuine.operands {history : List Operation} (genuine : a.Genuine history) :
    ∀ e ∈ a.log history, ∀ x ∈ e.instruction.operands, x ∈ (a.runAll history).frameOrder := by
  induction history generalizing a with
  | nil => exact List.forall_mem_nil _
  | cons operation rest ih =>
    have hrun : a.runAll (operation :: rest) = (a.run operation).state.runAll rest := rfl
    intro e he x hx
    simp only [log, journal, entries_append, List.mem_append] at he
    obtain he | he := he
    · have owned := Steps.owns (run_leads (a := a) operation) e he x hx
      have hx := genuine.1 x (run_operands operation e he x hx) owned
      exact frameOrder_runAll hx (operation :: rest)
    · rw [hrun]
      exact ih genuine.2 e he x hx

end Assembler
end Dalvik
