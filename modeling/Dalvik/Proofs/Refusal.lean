import Dalvik.Proofs.Append
import Dalvik.Proofs.Operands

/-! What a refused statement leaves behind. An instruction is appended as a whole or not at all, but a
statement may stand for two; if the second has an operand of another body, the first stays. -/
namespace Dalvik

namespace Statement

def lead : Statement → List Local
  | newInstance dst _ _ => [dst]
  | invoke call _ _ args => call.receiver?.toList ++ args
  | statement => statement.locals

def trail : Statement → List Local
  | newInstance _ _ args => args
  | invoke _ target result _ => if target.returns.isVoid then [] else result.toList
  | _ => []

/-- The instructions that a statement stands for: one, or two of which the first does not end the
code before the second. -/
inductive StandsFor (statement : Statement) : List (Instruction Local) → Prop
  | one (i : Instruction Local) (lead : i.operands = statement.lead) (trail : statement.trail = []) :
      StandsFor statement [i]
  | two (first second : Instruction Local) (own : List Local) (through : first.flow = .next)
      (lead : first.operands = statement.lead) (known : ∀ x ∈ own, x ∈ statement.lead)
      (trail : second.operands = own ++ statement.trail) : StandsFor statement [first, second]

theorem standsFor_instructions {method : MethodId} {statement : Statement}
    {is : List (Instruction Local)} (h : statement.instructions method = .ok is) :
    statement.StandsFor is := by
  rw [instructions_eq_ok h]
  cases statement with
  | newInstance dst target args => exact .two _ _ [dst] rfl rfl (by simp [lead]) rfl
  | invoke call target result args =>
    cases hvoid : target.returns.isVoid with
    | true =>
      simp only [code, hvoid, if_true]
      exact .one _ rfl (by simp [trail, hvoid])
    | false =>
      simp only [code, hvoid]
      cases result with
      | none => exact .one _ rfl (by simp [trail])
      | some x =>
        exact .two _ _ [] rfl rfl (List.forall_mem_nil _) (by simp [trail, hvoid, Instruction.operands])
  | cast dst src =>
    simp only [code]
    split <;> exact .one _ rfl rfl
  | _ => exact .one _ rfl rfl

end Statement

namespace Assembler

variable {a : Assembler} {i : Instruction Local} {target : Option Label}

theorem route_result (l : Label) (i : Instruction Local) (target : Option Label) :
    (a.route l i target).result = .ok () := by
  unfold route
  split
  · split <;> rfl
  all_goals rfl

theorem append_eq_ok : (a.append i target).result = .ok () ↔
    (∃ l, a.current = some l) ∧ ∀ x ∈ i.operands, a.owns x = true := by
  unfold append
  split
  · simp [Outcome.fail, *]
  · rename_i l hcurrent
    split
    · rename_i x hforeign
      have hx : a.owns x = false := by simpa using List.find?_some hforeign
      have hmem := List.mem_of_find?_eq_some hforeign
      simp only [Outcome.fail, reduceCtorEq, false_iff, not_and, not_forall]
      exact fun _ => ⟨x, hmem, by simp [hx]⟩
    · rename_i hown
      simp only [Outcome.note, route_result, true_iff]
      exact ⟨⟨l, hcurrent⟩, by simpa using hown⟩

theorem append_of_error {e : Error} (h : (a.append i target).result = .error e) :
    a.append i target = .fail a e := by
  obtain ⟨e', hfail⟩ | ⟨l, -, -, happend⟩ := append_cases (a := a) i target
  · rw [hfail] at h ⊢
    obtain rfl : e' = e := Except.error.inj h
    rfl
  · rw [happend, Outcome.note, route_result] at h
    cases h

theorem append_owns (x : Local) : (a.append i target).state.owns x = a.owns x := by
  obtain ⟨e, h⟩ | ⟨l, -, -, h⟩ := append_cases (a := a) i target
  · rw [h]
    rfl
  · have hbody := (route_sameMethod (a.push l i) l i target).body
    rw [h, owns, owns]
    exact congrArg (x.body == ·) hbody

theorem append_current (through : i.flow = .next) (h : (a.append i target).result = .ok ()) :
    ∃ l, (a.append i target).state.current = some l := by
  obtain ⟨e, hfail⟩ | ⟨l, hcurrent, -, happend⟩ := append_cases (a := a) i target
  · rw [hfail] at h
    cases h
  · rw [happend]
    simp only [Outcome.note, route, through]
    split
    · exact ⟨_, rfl⟩
    · exact ⟨l, hcurrent⟩

theorem Sound.append_ne (sound : a.Sound) (h : (a.append i target).result = .ok ()) :
    (a.append i target).state ≠ a := by
  obtain ⟨e, hfail⟩ | ⟨l, hcurrent, -, happend⟩ := append_cases (a := a) i target
  · rw [hfail] at h
    cases h
  · intro same
    have appended : Appended a l i target ((a.push l i).route l i target).state :=
      sound.appended hcurrent
    rw [happend] at same
    have hstate : ((a.push l i).route l i target).state = a := same
    have hblock := appended.block
    rw [hstate] at hblock
    have hsize := congrArg (fun d => d.instructions.size) hblock
    simp [ended] at hsize

/-- A statement is torn if its first instruction can be appended and its second has an operand of
another body. -/
structure Torn (a : Assembler) (statement : Statement) : Prop where
  typed : ∃ is, statement.instructions a.method = .ok is
  opened : ∃ l, a.current = some l
  lead : ∀ x ∈ statement.lead, a.owns x = true
  trail : ∃ x ∈ statement.trail, a.owns x = false

structure Leaves (a : Assembler) (statement : Statement) (first : Instruction Local) (x : Local) :
    Prop where
  made : ∃ second, statement.instructions a.method = .ok [first, second]
  foreign : x ∈ statement.trail ∧ a.owns x = false
  result : (a.emit statement).result = .error (.foreignLocal x)
  state : (a.emit statement).state = (a.append first none).state
  appended : (a.append first none).result = .ok ()

theorem append_of_foreign (target : Option Label) (opened : ∃ l, a.current = some l) {y : Local}
    (hy : y ∈ i.operands) (foreign : a.owns y = false) : ∃ x ∈ i.operands, a.owns x = false ∧
      a.append i target = .fail a (.foreignLocal x) := by
  obtain ⟨l, hcurrent⟩ := opened
  unfold append
  rw [hcurrent]
  cases hfind : i.operands.find? fun x => !a.owns x with
  | none =>
    rw [List.find?_eq_none] at hfind
    exact absurd foreign (by simpa using hfind y hy)
  | some x => exact ⟨x, List.mem_of_find?_eq_some hfind, by simpa using List.find?_some hfind, rfl⟩

theorem appendAll_singleton (i : Instruction Local) :
    (a.appendAll [i]).result = (a.append i none).result ∧
      (a.appendAll [i]).state = (a.append i none).state := by
  cases h : (a.append i none).result with
  | error e => exact Outcome.andThen_of_error h
  | ok => exact Outcome.andThen_of_ok h

theorem Torn.leaves {statement : Statement} (torn : a.Torn statement) :
    ∃ first x, a.Leaves statement first x := by
  obtain ⟨is, typed⟩ := torn.typed
  obtain ⟨y, hy, foreign⟩ := torn.trail
  have hemit : a.emit statement = a.appendAll is := by simp only [emit, typed]
  cases Statement.standsFor_instructions typed with
  | one i lead trail => simp [trail] at hy
  | two first second own through lead known trail =>
    have happend : (a.append first none).result = .ok () :=
      append_eq_ok.mpr ⟨torn.opened, lead ▸ torn.lead⟩
    have hsecond : y ∈ second.operands := trail ▸ List.mem_append_right own hy
    obtain ⟨x, hx, hforeign, hfail⟩ := append_of_foreign none (append_current through happend)
      hsecond ((append_owns y).trans foreign)
    rw [append_owns] at hforeign
    have htrail : x ∈ statement.trail := by
      rw [trail, List.mem_append] at hx
      refine hx.resolve_left fun howned => ?_
      simp [torn.lead x (known x howned)] at hforeign
    obtain ⟨hresult, hstate⟩ := appendAll_singleton (a := (a.append first none).state) second
    rw [hfail] at hresult hstate
    refine ⟨first, x, ⟨second, typed⟩, ⟨htrail, hforeign⟩, ?_, ?_, happend⟩
    · rw [hemit]
      exact (Outcome.andThen_of_ok happend).1.trans hresult
    · rw [hemit]
      exact (Outcome.andThen_of_ok happend).2.trans hstate

/-- A statement that is refused leaves no trace unless it is torn. -/
theorem emit_of_error {statement : Statement} {e : Error} (h : (a.emit statement).result = .error e)
    (whole : ¬a.Torn statement) : (a.emit statement).state = a := by
  cases typed : statement.instructions a.method with
  | error e' => simp only [emit, typed, Outcome.fail]
  | ok is =>
    have hemit : a.emit statement = a.appendAll is := by simp only [emit, typed]
    rw [hemit] at h ⊢
    cases Statement.standsFor_instructions typed with
    | one i lead trail =>
      obtain ⟨hresult, hstate⟩ := appendAll_singleton (a := a) i
      rw [hstate, append_of_error (hresult.symm.trans h)]
      rfl
    | two first second own through lead known trail =>
      cases happend : (a.append first none).result with
      | error e' =>
        have hfirst : (a.append first none).state = a := by
          rw [append_of_error happend]
          rfl
        exact (Outcome.andThen_of_error happend).2.trans hfirst
      | ok =>
        -- the second instruction can only be refused for an operand that the first does not have
        refine absurd ?_ whole
        obtain ⟨opened, owned⟩ := append_eq_ok.mp happend
        rw [lead] at owned
        have hrest : (a.appendAll [first, second]).result =
            ((a.append first none).state.appendAll [second]).result :=
          (Outcome.andThen_of_ok happend).1
        have hrefused : ((a.append first none).state.append second none).result ≠ .ok () := by
          rw [← (appendAll_singleton second).1, ← hrest, h]
          simp
        rw [ne_eq, append_eq_ok, not_and, not_forall] at hrefused
        obtain ⟨x, hx⟩ := hrefused (append_current through happend)
        rw [Classical.not_imp, append_owns, Bool.not_eq_true, trail, List.mem_append] at hx
        obtain ⟨hx, foreign⟩ := hx
        refine ⟨⟨_, typed⟩, opened, owned, x, hx.resolve_left fun howned => ?_, foreign⟩
        simp [owned x (known x howned)] at foreign

/-- Whatever calls were made on a body, a statement that is refused leaves it as it was if and only if it
is not torn; of a torn statement the first instruction stays. -/
theorem emit_traceless_iff (id : BodyId) (method : MethodId) (isStatic : Bool)
    (history : List Operation) (statement : Statement) :
    let a := (start id method isStatic).runAll history
    ((∀ e, (a.emit statement).result = .error e → (a.emit statement).state = a) ↔
        ¬a.Torn statement) ∧
      (a.Torn statement → ∃ first x, a.Leaves statement first x) := by
  intro a
  have sound : a.Sound := (runAll_steps history).sound (start_sound id method isStatic)
  refine ⟨⟨fun h torn => ?_, fun whole e he => emit_of_error he whole⟩, Torn.leaves⟩
  obtain ⟨first, x, leaves⟩ := torn.leaves
  have hsame := h _ leaves.result
  rw [leaves.state] at hsame
  exact sound.append_ne leaves.appended hsame

end Assembler

/-! A call whose result is to go into a variable of another body. -/
namespace Lent

def method : MethodId := ⟨.root, ⟨"run", by decide⟩, .int, []⟩
def borrower : Assembler := .start ⟨0⟩ method true
def lender : Assembler := .start ⟨1⟩ method true
def result : Local := ⟨⟨1⟩, 0, .int⟩
def call : Statement := .invoke .static method (some result) []

theorem call_leaves_invoke :
    (lender.newLocal .int).result = .ok result ∧
      (borrower.emit call).result = .error (.foreignLocal result) ∧
      (borrower.emit call).state ≠ borrower ∧
      borrower.isEmpty = true ∧ (borrower.emit call).state.isEmpty = false ∧
      ((borrower.emit call).state.block ⟨⟨0⟩, 0⟩).instructions = #[.invoke .static method []] := by
  decide

end Lent
end Dalvik
