import Dalvik.Proofs.Refusal
import Dalvik.Proofs.Tiling
import Dalvik.Proofs.Trace
import Mathlib.Logic.Function.Basic

/-! Bodies side by side. Calls on several bodies may be mixed in any way, and what one body gives out may
be handed to another. Yet a body refers to nothing but its own labels and variables, refuses those of
others, and is as if no other body were there. -/
namespace Dalvik

namespace Operation

def labels : Operation → List Label
  | mark l | jump l | branch _ l _ _ | addCatch _ l => [l]
  | _ => []

/-- The variables that a call makes use of. Those that it is given otherwise are of no account: the
result of a method without one is not stored. -/
def used : Operation → List Local
  | branch _ _ x y => x :: y.toList
  | emit statement => statement.lead ++ statement.trail
  | register x => [x]
  | _ => []

end Operation

namespace Assembler

variable {a b : Assembler}

def Numbers (a : Assembler) (x : Local) : Prop := x.body = a.body ∧ x.index < a.nextLocal

structure SelfContained (a : Assembler) : Prop where
  receiver : ∀ x, a.receiver = some x → a.Numbers x
  parameters : ∀ x ∈ a.parameters.toList, a.Numbers x
  locals : ∀ x ∈ a.locals.toList, a.Numbers x
  operands : ∀ d ∈ a.blocks.toList, ∀ i ∈ d.instructions.toList, ∀ x ∈ i.operands, a.Numbers x
  current : ∀ l, a.current = some l → a.ownsLabel l = true
  order : ∀ l ∈ a.order.toList, a.ownsLabel l = true
  successors : ∀ d ∈ a.blocks.toList, ∀ l ∈ d.successors, a.ownsLabel l = true
  catches : ∀ c ∈ a.catches, a.ownsLabel c.handler = true

theorem exists_label {d : DraftBlock} (hd : d ∈ a.blocks.toList) :
    ∃ l, a.ownsLabel l = true ∧ a.block l = d := by
  obtain ⟨k, hk, rfl⟩ := List.mem_iff_getElem.mp hd
  rw [Array.length_toList] at hk
  refine ⟨⟨a.body, k⟩, ownsLabel_iff.mpr ⟨rfl, hk⟩, ?_⟩
  simp [block, Array.getD_eq_getD_getElem?, hk]

/-- The operands of a body are among its variables if those of the appended instructions are: all other
instructions move arguments. -/
theorem Traced.operands {log : List Entry} (traced : a.Traced log)
    (known : ∀ e ∈ log, ∀ x ∈ e.instruction.operands, x ∈ a.frameOrder) {l : Label}
    (owned : a.ownsLabel l = true) :
    ∀ i ∈ (a.block l).instructions.toList, ∀ x ∈ i.operands, x ∈ a.frameOrder := by
  obtain ⟨before, run, after, spans⟩ := traced.spans l owned
  intro i hi x hx
  rw [spans.code, List.mem_append] at hi
  obtain hi | hi := hi
  · unfold prologue at hi
    split at hi
    · obtain ⟨y, hy, n, rfl⟩ := Placement.exists_of_mem_argumentMoves hi
      obtain rfl : x = y := List.mem_singleton.mp hx
      exact List.mem_append_right _ hy
    · cases hi
  · obtain ⟨e, he, rfl⟩ := List.mem_map.mp hi
    exact known e (spans.mem_run_iff.mp he).1 x hx

theorem Numbered.numbers (numbered : a.Numbered) {x : Local} (hx : x ∈ a.frameOrder) : a.Numbers x :=
  ⟨numbered.body hx, numbered.index_lt hx⟩

theorem Numbered.receiver_mem (numbered : a.Numbered) {x : Local} (hx : a.receiver = some x) :
    x ∈ a.frameOrder := by
  rw [numbered.receiver] at hx
  split at hx
  · cases hx
  · exact List.mem_append_right _ (Array.mem_toList_iff.mpr (Array.mem_of_getElem? hx))

theorem selfContained {log : List Entry} (sound : a.Sound) (numbered : a.Numbered)
    (traced : a.Traced log)
    (known : ∀ e ∈ log, ∀ x ∈ e.instruction.operands, x ∈ a.frameOrder) : a.SelfContained where
  receiver := fun _ hx => numbered.numbers (numbered.receiver_mem hx)
  parameters := fun _ hx => numbered.numbers (List.mem_append_right _ hx)
  locals := fun _ hx => numbered.numbers (List.mem_append_left _ hx)
  operands := fun d hd i hi x hx => by
    obtain ⟨l, owned, rfl⟩ := exists_label hd
    exact numbered.numbers (traced.operands known owned i hi x hx)
  current := fun l h => (sound.current l h).1
  order := fun l hl => ((sound.mem_order l).mp hl).1
  successors := fun d hd l hl => by
    obtain ⟨m, owned, rfl⟩ := exists_label hd
    exact (sound.edges m owned l hl).1
  catches := fun c hc => (sound.catches c hc).1

theorem owns_of_appendAll {is : List (Instruction Local)} (h : (a.appendAll is).result = .ok ()) :
    ∀ i ∈ is, ∀ x ∈ i.operands, a.owns x = true := by
  induction is generalizing a with
  | nil => exact List.forall_mem_nil _
  | cons i is ih =>
    cases happend : (a.append i none).result with
    | error e =>
      have herror : (a.appendAll (i :: is)).result = .error e := (Outcome.andThen_of_error happend).1
      cases herror.symm.trans h
    | ok =>
      have hrest : (a.appendAll (i :: is)).result = ((a.append i none).state.appendAll is).result :=
        (Outcome.andThen_of_ok happend).1
      rw [List.forall_mem_cons]
      refine ⟨(append_eq_ok.mp happend).2, fun j hj x hx => ?_⟩
      rw [← append_owns x]
      exact ih (hrest.symm.trans h) j hj x hx

theorem owns_of_emit {statement : Statement} (h : (a.emit statement).result = .ok ()) :
    ∀ x ∈ statement.lead ++ statement.trail, a.owns x = true := by
  cases typed : statement.instructions a.method with
  | error e =>
    simp only [emit, typed] at h
    cases h
  | ok is =>
    simp only [emit, typed] at h
    have howns := owns_of_appendAll h
    cases Statement.standsFor_instructions typed with
    | one i lead trail =>
      rw [trail, List.append_nil, ← lead]
      exact howns i List.mem_cons_self
    | two first second own through lead known trail =>
      intro x hx
      obtain hx | hx := List.mem_append.mp hx
      · exact howns first List.mem_cons_self x (lead ▸ hx)
      · exact howns second (by simp) x (trail ▸ List.mem_append_right own hx)

theorem owns_of_appendTo {target : Label} {i : Instruction Local}
    (h : (a.appendTo target i).result = .ok ()) :
    a.ownsLabel target = true ∧ ∀ x ∈ i.operands, a.owns x = true := by
  unfold appendTo at h
  split at h
  · cases h
  · rename_i b hadopt
    refine ⟨(adopt_cases hadopt).1, ?_⟩
    have hbody := (adopt_ok hadopt).1.steps.sameMethod.body
    have howns := (append_eq_ok.mp h).2
    simpa only [owns, hbody] using howns

theorem owns_of_branch {comparison : Comparison} {target : Label} {x : Local} {y : Option Local}
    (h : (a.branch comparison target x y).result = .ok ()) :
    a.ownsLabel target = true ∧ ∀ z ∈ x :: y.toList, a.owns z = true := by
  obtain ⟨e, hfail⟩ | ⟨-, happend⟩ := branch_cases (a := a) comparison target x y
  · rw [hfail] at h
    cases h
  · rw [happend] at h
    have howns := owns_of_appendTo h
    cases y <;> exact howns

theorem owns_of_mark {l : Label} (h : (a.mark l).result = .ok ()) : a.ownsLabel l = true := by
  obtain ⟨e, hfail⟩ | ⟨b, hadopt, -⟩ := mark_cases (a := a) l
  · rw [hfail] at h
    cases h
  · exact (adopt_cases hadopt).1

theorem owns_of_addCatch {exception : Ty} {handler : Label}
    (h : (a.addCatch exception handler).result = .ok ()) : a.ownsLabel handler = true := by
  unfold addCatch at h
  split at h
  · cases h
  · split at h
    · cases h
    · split at h
      · cases h
      · rename_i hadopt
        exact (adopt_cases hadopt).1

theorem owns_of_register {x : Local} {r : Register} (h : a.register x = .ok r) :
    a.owns x = true := by
  unfold register at h
  split at h
  · cases h
  · rename_i hbody
    simpa [owns] using hbody

theorem map_result_eq_ok {α β : Type} {outcome : Outcome Assembler α} {f : α → β} {value : β}
    (h : (outcome.map f).result = .ok value) : ∃ u, outcome.result = .ok u := by
  obtain ⟨result, state, events⟩ := outcome
  cases result with
  | error e => cases h
  | ok u => exact ⟨u, rfl⟩

theorem owns_of_run {operation : Operation} {reply : Reply}
    (h : (a.run operation).result = .ok reply) :
    (∀ l ∈ operation.labels, a.ownsLabel l = true) ∧ ∀ x ∈ operation.used, a.owns x = true := by
  have vacuous {α : Type} {p : α → Prop} : ∀ x ∈ ([] : List α), p x := List.forall_mem_nil p
  cases operation with
  | mark l =>
    obtain ⟨_, h⟩ := map_result_eq_ok h
    exact ⟨List.forall_mem_singleton.mpr (owns_of_mark h), vacuous⟩
  | jump l =>
    obtain ⟨_, h⟩ := map_result_eq_ok h
    exact ⟨List.forall_mem_singleton.mpr (owns_of_appendTo h).1, vacuous⟩
  | branch comparison target x y =>
    obtain ⟨_, h⟩ := map_result_eq_ok h
    obtain ⟨hlabel, hvariables⟩ := owns_of_branch h
    exact ⟨List.forall_mem_singleton.mpr hlabel, hvariables⟩
  | addCatch exception handler =>
    obtain ⟨_, h⟩ := map_result_eq_ok h
    exact ⟨List.forall_mem_singleton.mpr (owns_of_addCatch h), vacuous⟩
  | emit statement =>
    obtain ⟨_, h⟩ := map_result_eq_ok h
    exact ⟨vacuous, owns_of_emit h⟩
  | register x =>
    cases hregister : a.register x with
    | error e =>
      simp only [run, Outcome.ofExcept, hregister] at h
      cases h
    | ok r => exact ⟨vacuous, List.forall_mem_singleton.mpr (owns_of_register hregister)⟩
  | _ => exact ⟨vacuous, vacuous⟩

def given? : Except Error Reply → Option Local
  | .ok (.operand x) => some x
  | _ => none

theorem asked_eq_ok {role : Role} {type : Ty} {found x : Local} (h : asked role type found = .ok x) :
    found = x := by
  unfold asked at h
  split at h
  · exact Except.ok.inj h
  · cases h

theorem askParameter_mem {index : Nat} {type : Ty} {x : Local}
    (h : a.askParameter index type = .ok x) : x ∈ a.frameOrder := by
  simp only [askParameter] at h
  generalize (if a.isStatic = true then 0 else 1) = offset at h
  split at h
  · cases h
  · rename_i found hfound
    obtain rfl := asked_eq_ok h
    split at hfound
    · exact List.mem_append_right _ (Array.mem_toList_iff.mpr (Array.mem_of_getElem? hfound))
    · cases hfound

theorem Numbered.askReceiver_mem (numbered : a.Numbered) {type : Ty} {x : Local}
    (h : a.askReceiver type = .ok x) : x ∈ a.frameOrder := by
  unfold askReceiver at h
  split at h
  · cases h
  · rename_i hfound
    obtain rfl := asked_eq_ok h
    exact numbered.receiver_mem hfound

theorem ofExcept_operand {asked : Except Error Local} {x : Local}
    (h : given? (Outcome.ofExcept a (asked.map Reply.operand)).result = some x) : asked = .ok x := by
  cases asked with
  | error e => cases h
  | ok y => exact congrArg Except.ok (Option.some.inj h)

theorem Numbered.given (numbered : a.Numbered) {operation : Operation} {x : Local}
    (h : given? (a.run operation).result = some x) : x ∈ (a.run operation).state.frameOrder := by
  have silent {α : Type} {outcome : Outcome Assembler α} {f : α → Reply}
      (hf : ∀ value, given? (.ok (f value)) = none)
      (h : given? (outcome.map f).result = some x) : x ∈ (outcome.map f).state.frameOrder := by
    obtain ⟨result, state, events⟩ := outcome
    cases result with
    | error e => cases h
    | ok value => cases (hf value).symm.trans h
  cases operation with
  | newLocal type =>
    have hmade : made? (.newLocal type) (a.run (.newLocal type)).result = some x := by
      rw [← h]
      cases (a.run (.newLocal type)).result with
      | error e => rfl
      | ok reply => cases reply <;> rfl
    unfold frameOrder
    rw [newLocal_locals, hmade]
    simp
  | parameter index type => exact askParameter_mem (ofExcept_operand h)
  | receiver type => exact numbered.askReceiver_mem (ofExcept_operand h)
  | register x =>
    cases hregister : a.register x with
    | error e =>
      simp only [run, Outcome.ofExcept, hregister] at h
      cases h
    | ok r =>
      simp only [run, Outcome.ofExcept, hregister] at h
      cases h
  | _ => exact silent (fun _ => rfl) h

section Mixed

variable {ι : Type} [DecidableEq ι] {bodies : ι → Assembler} {known : List Local}

def runOne (bodies : ι → Assembler) (call : ι × Operation) : ι → Assembler :=
  Function.update bodies call.1 ((bodies call.1).run call.2).state

def runMixed (bodies : ι → Assembler) (calls : List (ι × Operation)) : ι → Assembler :=
  calls.foldl runOne bodies

def callsTo (i : ι) (calls : List (ι × Operation)) : List Operation :=
  (calls.filter (·.1 = i)).map Prod.snd

/-- A caller that has no variables but those that it knows and those that the bodies give to it. It may
hand each of them to any body. -/
def Honest (bodies : ι → Assembler) (known : List Local) : List (ι × Operation) → Prop
  | [] => True
  | call :: rest =>
    (∀ x ∈ call.2.locals, x ∈ known) ∧
      Honest (runOne bodies call)
        (known ++ (given? ((bodies call.1).run call.2).result).toList) rest

instance decidableHonest (bodies : ι → Assembler) (known : List Local) :
    (calls : List (ι × Operation)) → Decidable (Honest bodies known calls)
  | [] => .isTrue trivial
  | call :: rest =>
    have := decidableHonest (runOne bodies call)
      (known ++ (given? ((bodies call.1).run call.2).result).toList) rest
    inferInstanceAs (Decidable ((∀ x ∈ call.2.locals, x ∈ known) ∧ _))

theorem runOne_self (i : ι) (operation : Operation) :
    runOne bodies (i, operation) i = ((bodies i).run operation).state :=
  Function.update_self ..

theorem runOne_of_ne {call : ι × Operation} {i : ι} (h : i ≠ call.1) :
    runOne bodies call i = bodies i :=
  Function.update_of_ne h ..

theorem callsTo_cons_self (i : ι) (operation : Operation) (rest : List (ι × Operation)) :
    callsTo i ((i, operation) :: rest) = operation :: callsTo i rest := by
  simp [callsTo]

theorem callsTo_cons_of_ne {call : ι × Operation} {i : ι} (h : i ≠ call.1)
    (rest : List (ι × Operation)) : callsTo i (call :: rest) = callsTo i rest := by
  simp [callsTo, h.symm]

theorem runMixed_apply (calls : List (ι × Operation)) (i : ι) :
    runMixed bodies calls i = (bodies i).runAll (callsTo i calls) := by
  induction calls generalizing bodies with
  | nil => rfl
  | cons call rest ih =>
    have hrun : runMixed bodies (call :: rest) i = runMixed (runOne bodies call) rest i := rfl
    rw [hrun, ih]
    by_cases h : i = call.1
    · obtain ⟨j, operation⟩ := call
      obtain rfl : i = j := h
      rw [runOne_self, callsTo_cons_self]
      rfl
    · rw [runOne_of_ne h, callsTo_cons_of_ne h]

theorem runOne_preserves {P : Assembler → Prop} {i : ι} (kept : P (bodies i))
    (called : ∀ operation, P ((bodies i).run operation).state) (call : ι × Operation) :
    P (runOne bodies call i) := by
  obtain ⟨j, operation⟩ := call
  by_cases h : i = j
  · obtain rfl := h
    rw [runOne_self]
    exact called operation
  · rwa [runOne_of_ne h]

theorem runOne_numbered (numbered : ∀ i, (bodies i).Numbered) (call : ι × Operation) (i : ι) :
    (runOne bodies call i).Numbered :=
  runOne_preserves (numbered i) (fun operation => (run_leads operation).numbered (numbered i)) call

theorem runOne_body (call : ι × Operation) (i : ι) :
    (runOne bodies call i).body = (bodies i).body :=
  runOne_preserves (P := fun a => a.body = (bodies i).body) rfl
    (fun operation => (run_leads operation).sameMethod.body) call

theorem runOne_frameOrder {i : ι} {x : Local} (hx : x ∈ (bodies i).frameOrder)
    (call : ι × Operation) : x ∈ (runOne bodies call i).frameOrder :=
  runOne_preserves (P := fun a => x ∈ a.frameOrder) hx
    (fun operation => frameOrder_runAll hx [operation]) call

/-- Every variable that an honest caller knows is one of some body; so, as bodies are told apart by their
identities, whatever it hands to a body is foreign or among the variables there. -/
theorem Honest.genuine {calls : List (ι × Operation)} (honest : Honest bodies known calls)
    (distinct : Function.Injective fun i => (bodies i).body) (numbered : ∀ i, (bodies i).Numbered)
    (origin : ∀ x ∈ known, ∃ i, x ∈ (bodies i).frameOrder) (i : ι) :
    (bodies i).Genuine (callsTo i calls) := by
  -- what carries the induction is where the known variables come from
  induction calls generalizing bodies known with
  | nil => exact trivial
  | cons call rest ih =>
    have hrest := ih honest.2 (by simpa only [runOne_body] using distinct)
      (runOne_numbered numbered call) (by
        intro x hx
        obtain hx | hx := List.mem_append.mp hx
        · obtain ⟨j, hj⟩ := origin x hx
          exact ⟨j, runOne_frameOrder hj call⟩
        · refine ⟨call.1, ?_⟩
          rw [runOne_self]
          exact (numbered call.1).given (Option.mem_toList.mp hx))
    by_cases h : i = call.1
    · obtain ⟨j, operation⟩ := call
      obtain rfl : i = j := h
      rw [callsTo_cons_self]
      refine ⟨fun x hx owned => ?_, by rwa [runOne_self] at hrest⟩
      obtain ⟨j, hj⟩ := origin x (honest.1 x hx)
      have hbody : (bodies j).body = (bodies i).body :=
        ((numbered j).body hj).symm.trans (by simpa [owns] using owned)
      obtain rfl := distinct hbody
      exact hj
    · rw [runOne_of_ne h] at hrest
      rwa [callsTo_cons_of_ne h]

/-- Bodies with identities of their own do not get into one another, however calls on them are mixed and
whatever handles are passed among them: each refers to nothing outside of it and is as its own calls left
it; and a call that is given a label of another body, or is to make use of a variable of another, fails.
Labels may even be made up. -/
theorem runMixed_isolated (ids : ι → BodyId) (distinct : Function.Injective ids)
    (methods : ι → MethodId) (isStatic : ι → Bool) (calls : List (ι × Operation))
    (honest : Honest (fun i => start (ids i) (methods i) (isStatic i)) [] calls) :
    let bodies := runMixed (fun i => start (ids i) (methods i) (isStatic i)) calls
    (∀ i, (bodies i).body = ids i ∧ (bodies i).SelfContained ∧
      bodies i = (start (ids i) (methods i) (isStatic i)).runAll (callsTo i calls)) ∧
    ∀ call : ι × Operation,
      ((∃ l ∈ call.2.labels, l.body ≠ ids call.1) ∨ (∃ x ∈ call.2.used, x.body ≠ ids call.1) →
        ∃ e, ((bodies call.1).run call.2).result = .error e) ∧
      ∀ i, i ≠ call.1 → runOne bodies call i = bodies i := by
  intro bodies
  have hbodies (i : ι) :
      bodies i = (start (ids i) (methods i) (isStatic i)).runAll (callsTo i calls) :=
    runMixed_apply calls i
  have hbody (i : ι) : (bodies i).body = ids i := by
    rw [hbodies]
    exact (runAll_steps _).sameMethod.body
  refine ⟨fun i => ⟨hbody i, ?_, hbodies i⟩, fun call => ⟨fun foreign => ?_, fun i => runOne_of_ne⟩⟩
  · have genuine := honest.genuine distinct (fun i => start_numbered ..) (List.forall_mem_nil _) i
    have steps := runAll_steps (a := start (ids i) (methods i) (isStatic i)) (callsTo i calls)
    rw [hbodies]
    exact selfContained (steps.sound (start_sound ..)) (steps.numbered (start_numbered ..))
      (steps.traced (start_sound ..) (start_traced ..)) genuine.operands
  · cases h : ((bodies call.1).run call.2).result with
    | error e => exact ⟨e, rfl⟩
    | ok reply =>
      obtain ⟨hlabels, hused⟩ := owns_of_run h
      obtain ⟨l, hl, other⟩ | ⟨x, hx, other⟩ := foreign
      · exact absurd ((ownsLabel_iff.mp (hlabels l hl)).1.trans (hbody call.1)) other
      · have hown : x.body = (bodies call.1).body := by simpa [owns] using hused x hx
        exact absurd (hown.trans (hbody call.1)) other

end Mixed

end Assembler

/-! Two bodies whose caller hands labels and variables of each to the other. A variable of the wrong body
is even taken where a method without a result would have to store one. -/
namespace Neighbours

def method : MethodId := ⟨.root, ⟨"next", by decide⟩, .void, [.int]⟩
def ids (right : Bool) : BodyId := ⟨if right then 1 else 0⟩
def begun (right : Bool) : Assembler := .start (ids right) method right

def leftLocal : Local := ⟨⟨0⟩, 2, .int⟩
def rightLocal : Local := ⟨⟨1⟩, 1, .int⟩
def leftLabel : Label := ⟨⟨0⟩, 1⟩
def rightLabel : Label := ⟨⟨1⟩, 1⟩

def calls : List (Bool × Operation) :=
  [(false, .newLocal .int), (true, .newLocal .int), (false, .newLabel), (true, .newLabel),
    (false, .emit (.move leftLocal rightLocal)), (true, .jump leftLabel),
    (true, .emit (.move rightLocal rightLocal)), (false, .addCatch .throwable rightLabel),
    (false, .addCatch .throwable leftLabel),
    (false, .emit (.invoke .static method (some rightLocal) [leftLocal])),
    (true, .branch .eq rightLabel leftLocal none), (true, .mark rightLabel)]

theorem calls_isolated :
    Function.Injective ids ∧ Assembler.Honest begun [] calls ∧
      (∀ right, (Assembler.runMixed begun calls right).body = ids right ∧
        (Assembler.runMixed begun calls right).SelfContained ∧
        Assembler.runMixed begun calls right =
          (begun right).runAll (Assembler.callsTo right calls)) ∧
      ∃ e, ((Assembler.runMixed begun calls false).run (.emit (.move leftLocal rightLocal))).result =
        .error e :=
  have distinct : Function.Injective ids := by unfold Function.Injective; decide
  have honest : Assembler.Honest begun [] calls := by decide
  have isolated := Assembler.runMixed_isolated ids distinct (fun _ => method) id calls honest
  ⟨distinct, honest, isolated.1, (isolated.2 (false, .emit (.move leftLocal rightLocal))).1
    (.inr ⟨rightLocal, by decide, by decide⟩)⟩

end Neighbours
end Dalvik
