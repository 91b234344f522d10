import Dalvik.Proofs.Frozen
import Dalvik.Proofs.Refusal

/-! What refused calls leave behind. A call that comes to one instruction at most changes nothing if it is
refused, save that a jump or branch takes its target into use before its instruction is looked at. -/
namespace Dalvik

/-- Whether a call appends one instruction at most and does nothing else along with it. -/
def Operation.isSingle : Operation → Bool
  | .emit (.newInstance ..) => false
  | .emit (.invoke _ method (some _) _) => method.returns.isVoid
  | .finish => false
  | _ => true

def Operation.target? : Operation → Option Label
  | .jump l => some l
  | .branch _ l _ _ => some l
  | _ => none

def Error.stopsAppending : Error → Bool
  | .noOpenBlock _ | .foreignLocal _ => true
  | _ => false

namespace Assembler

variable {a b : Assembler} {l : Label} {e : Error} {i : Instruction Local}

def adopting (a : Assembler) (l : Label) : Assembler :=
  { a.editBlock l ({ · with adopted := true }) with order := a.order.push l }

/-- What is left after a call was refused with the error. -/
def residue (a : Assembler) (operation : Operation) (e : Error) : Assembler :=
  match operation.target? with
  | none => a
  | some l => if e.stopsAppending && !a.order.toList.contains l then a.adopting l else a

theorem Sound.adopt_eq (sound : a.Sound) (h : a.adopt l = .ok b) :
    a.ownsLabel l = true ∧ b = if a.order.toList.contains l then a else a.adopting l := by
  obtain ⟨owned, ⟨adopted, rfl⟩ | ⟨unused, rfl⟩⟩ := adopt_cases h
  · have hmem : l ∈ b.order := by simpa using (sound.staged.mem_order l).mpr ⟨owned, adopted⟩
    simp [owned, hmem]
  · have hmem : l ∉ a.order := by
      intro hmem
      have used := (sound.staged.mem_order l).mp (by simpa using hmem)
      simp [unused] at used
    simp [owned, hmem, adopting]

theorem append_stopsAppending {target : Option Label} (h : (a.append i target).result = .error e) :
    e.stopsAppending = true := by
  unfold append at h
  split at h
  · cases h
    rfl
  · split at h
    · cases h
      rfl
    · rw [Outcome.note, route_result] at h
      cases h

theorem adopt_error (h : a.adopt l = .error e) : e = .foreignLabel l := by
  unfold adopt at h
  split at h
  · cases h
    rfl
  · split at h <;> cases h

/-- A jump or branch that is refused leaves no trace if its target is at fault, and otherwise the target is
in use from then on. -/
theorem Sound.appendTo_of_error (sound : a.Sound) (h : (a.appendTo l i).result = .error e) :
    (a.appendTo l i).state =
        (if e.stopsAppending && !a.order.toList.contains l then a.adopting l else a) ∧
      (e.stopsAppending = true → a.ownsLabel l = true) := by
  unfold appendTo at h ⊢
  cases hadopt : a.adopt l with
  | error e' =>
    obtain rfl : e' = e := by simpa [hadopt, Outcome.fail] using h
    rw [adopt_error hadopt]
    exact ⟨rfl, by simp [Error.stopsAppending]⟩
  | ok b =>
    simp only [hadopt] at h
    obtain ⟨owned, hb⟩ := sound.adopt_eq hadopt
    have hstate : (b.append i (some l)).state = b := by
      rw [append_of_error h]
      rfl
    refine ⟨?_, fun _ => owned⟩
    rw [hstate, hb, append_stopsAppending h]
    cases a.order.toList.contains l <;> rfl

theorem require_eq_error {holds : Bool} {error : Error}
    (h : Typing.require holds error = .error e) : e = error := by
  unfold Typing.require at h
  split at h <;> cases h
  rfl

theorem branchOperand_stopsAppending {comparison : Comparison} {t : Ty}
    (h : Typing.branchOperand comparison t = .error e) : e.stopsAppending = false := by
  unfold Typing.branchOperand at h
  split at h
  all_goals
    rw [require_eq_error h]
    rfl

theorem Sound.branch_of_error (sound : a.Sound) {comparison : Comparison} {x : Local}
    {y : Option Local} (h : (a.branch comparison l x y).result = .error e) :
    (a.branch comparison l x y).state =
        (if e.stopsAppending && !a.order.toList.contains l then a.adopting l else a) ∧
      (e.stopsAppending = true → a.ownsLabel l = true) := by
  unfold branch at h ⊢
  simp only at h ⊢
  split
  · rename_i e' hchecked
    have hearly : e'.stopsAppending = false := by
      cases y with
      | none => exact branchOperand_stopsAppending hchecked
      | some y =>
        obtain hsame | ⟨_, -, hoperand⟩ := bind_eq_error.mp hchecked
        · rw [require_eq_error hsame]
          rfl
        · exact branchOperand_stopsAppending hoperand
    obtain rfl : e' = e := by simpa [hchecked, Outcome.fail] using h
    rw [hearly]
    exact ⟨rfl, by simp⟩
  · rename_i hchecked
    simp only [hchecked] at h
    exact sound.appendTo_of_error h

theorem Sound.mark_of_error (sound : a.Sound) (h : (a.mark l).result = .error e) :
    (a.mark l).state = a := by
  obtain ⟨e', hfail⟩ | ⟨b, hadopt, ⟨marked, hfail⟩ | ⟨-, ⟨-, hok⟩ | ⟨c, -, hok⟩⟩⟩ := mark_cases (a := a) l
  · rw [hfail]
    rfl
  · obtain ⟨owned, ⟨-, rfl⟩ | ⟨unused, rfl⟩⟩ := adopt_cases hadopt
    · rw [hfail]
      rfl
    · have hmarked : ((a.editBlock l ({ · with adopted := true })).block l).marked = true := marked
      rw [block_editBlock_self owned] at hmarked
      simp [sound.staged.adopted l owned hmarked] at unused
  · rw [hok] at h
    cases h
  · rw [hok] at h
    cases h

theorem addCatch_of_error {exception : Ty} (h : (a.addCatch exception l).result = .error e) :
    (a.addCatch exception l).state = a := by
  unfold addCatch at h ⊢
  split
  · rfl
  · split
    · rfl
    · split
      · rfl
      · simp_all [Outcome.ok]

theorem removeCatch_of_error {exception : Ty} (h : (a.removeCatch exception).result = .error e) :
    (a.removeCatch exception).state = a := by
  unfold removeCatch at h ⊢
  split
  · rfl
  · simp_all [Outcome.ok]

theorem newLocal_of_error {type : Ty} (h : (a.newLocal type).result = .error e) :
    (a.newLocal type).state = a := by
  obtain ⟨e', hfail⟩ | ⟨-, -, -, hok⟩ := newLocal_cases (a := a) type
  · rw [hfail]
    rfl
  · rw [hok] at h
    cases h

theorem assignRegisters_of_error (h : a.assignRegisters.result = .error e) :
    a.assignRegisters.state = a := by
  obtain ⟨e', hfail⟩ | ⟨frame, moves, -, -, hok⟩ := a.assignRegisters_cases
  · rw [hfail]
    rfl
  · rw [hok] at h
    cases h

theorem trail_of_isSingle {statement : Statement} (single : (Operation.emit statement).isSingle = true) :
    statement.trail = [] := by
  cases statement with
  | newInstance dst method args => cases single
  | invoke call method result args =>
    cases result with
    | none => simp [Statement.trail]
    | some x =>
      have hvoid : method.returns.isVoid = true := single
      simp [Statement.trail, hvoid]
  | _ => rfl

theorem map_result_eq_error {outcome : Outcome Assembler α} {f : α → β}
    (h : (outcome.map f).result = .error e) : outcome.result = .error e := by
  cases hresult : outcome.result <;> simp_all [Outcome.map, Except.map]

/-- Whatever calls were made on a body, one that is refused leaves it exactly as it was if it comes to one
instruction at most; only a jump or branch whose instruction cannot be appended leaves its target, which
is a label of the body, in use. -/
theorem run_residue (id : BodyId) (method : MethodId) (isStatic : Bool) (history : List Operation)
    (operation : Operation) (e : Error) (single : operation.isSingle = true)
    (h : (((start id method isStatic).runAll history).run operation).result = .error e) :
    let a := (start id method isStatic).runAll history
    (a.run operation).state = a.residue operation e ∧
      ∀ l, operation.target? = some l → e.stopsAppending = true → a.ownsLabel l = true := by
  intro a
  have sound : a.Sound := (runAll_steps history).sound (start_sound id method isStatic)
  have h : (a.run operation).result = .error e := h
  cases operation with
  | newLabel => cases h
  | newLocal type => exact ⟨newLocal_of_error (map_result_eq_error h), nofun⟩
  | parameter index type => exact ⟨rfl, nofun⟩
  | receiver type => exact ⟨rfl, nofun⟩
  | mark l => exact ⟨sound.mark_of_error (map_result_eq_error h), nofun⟩
  | jump l =>
    obtain ⟨hstate, owned⟩ := sound.appendTo_of_error (map_result_eq_error h)
    exact ⟨hstate, fun _ hl => Option.some.inj hl ▸ owned⟩
  | branch comparison l x y =>
    obtain ⟨hstate, owned⟩ := sound.branch_of_error (map_result_eq_error h)
    exact ⟨hstate, fun _ hl => Option.some.inj hl ▸ owned⟩
  | addCatch exception l => exact ⟨addCatch_of_error (map_result_eq_error h), nofun⟩
  | removeCatch exception => exact ⟨removeCatch_of_error (map_result_eq_error h), nofun⟩
  | emit statement =>
    have whole : ¬a.Torn statement := by
      intro torn
      obtain ⟨x, hx, -⟩ := torn.trail
      simp [trail_of_isSingle single] at hx
    exact ⟨emit_of_error (map_result_eq_error h) whole, nofun⟩
  | assignRegisters => exact ⟨assignRegisters_of_error (map_result_eq_error h), nofun⟩
  | register x => exact ⟨rfl, nofun⟩
  | finish => cases single

end Assembler

/-! A branch that comes too late: the code before it has returned, so there is no open block. Its target is
in use all the same. -/
namespace Belated

def method : MethodId := ⟨.root, ⟨"halt", by decide⟩, .void, [.int]⟩
def count : Local := ⟨⟨0⟩, 0, .int⟩
def history : List Operation := [.newLabel, .newLabel, .emit .returnVoid]
def body : Assembler := (Assembler.start ⟨0⟩ method true).runAll history
def branch : Operation := .branch .eq ⟨⟨0⟩, 2⟩ count none
def refusal : Error := .noOpenBlock (.branch .eq count none)

theorem branch_residue :
    branch.isSingle = true ∧ (body.run branch).result = .error refusal ∧
      (body.run branch).state = body.residue branch refusal ∧
      (∀ l, branch.target? = some l → refusal.stopsAppending = true → body.ownsLabel l = true) ∧
      body.residue branch refusal = body.adopting ⟨⟨0⟩, 2⟩ ∧ body.order = #[⟨⟨0⟩, 0⟩] :=
  have hresult : (body.run branch).result = .error refusal := by decide
  have hresidue := Assembler.run_residue ⟨0⟩ method true history branch refusal rfl hresult
  ⟨rfl, hresult, hresidue.1, hresidue.2, by decide, by decide⟩

end Belated
end Dalvik
