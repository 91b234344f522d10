import Dalvik.Proofs.Finished
import Dalvik.Proofs.Occurrence
import Dalvik.Proofs.Operands
import Dalvik.Proofs.Tiling

/-! What finishing a body can come to. A body without code is refused, one whose variables need too many
registers does not fit, and any other finishes unless its code runs out somewhere: at the end of the
open block, or at a label that got no code. -/
namespace Dalvik

theorem ok_bind (x : α) (f : α → Except ε β) : (Except.ok x >>= f) = f x := rfl

/-- The first total of widths, from `base` on, that is no register number. -/
def Overflows (base : Nat) (types : List Ty) (n : Nat) : Prop :=
  ∃ k, n = base + Ty.totalWidth (types.take k) ∧ 65535 < n ∧
    ∀ j, j < k → base + Ty.totalWidth (types.take j) ≤ 65535

theorem overflows_self {base : Nat} (types : List Ty) (h : 65535 < base) :
    Overflows base types base :=
  ⟨0, rfl, h, by simp⟩

theorem Overflows.cons {base n : Nat} {type : Ty} {types : List Ty} (hbase : base ≤ 65535)
    (h : Overflows (base + type.width) types n) : Overflows base (type :: types) n := by
  obtain ⟨k, hn, hover, hbefore⟩ := h
  refine ⟨k + 1, by rw [hn, Nat.add_assoc]; rfl, hover, ?_⟩
  intro j hj
  cases j with
  | zero => exact hbase
  | succ j =>
    have hfits := hbefore j (by omega)
    rw [Nat.add_assoc] at hfits
    exact hfits

namespace Placement

variable {p : Placement} {xs : List Local}

theorem place_of_lt (x : Local) (h : p.next < 65536) : p.place x =
    .ok ⟨p.numbers.setIfInBounds x.index (UInt16.ofNat p.next), p.next + x.width⟩ :=
  place_eq_ok.mpr ⟨h, rfl⟩

theorem place_of_le (x : Local) (h : 65536 ≤ p.next) :
    p.place x = .error (.registerOverflow p.next) := by
  simp [place, registerNumber, Nat.not_lt.mpr h, bind, Except.bind]

theorem places_cases (xs : List Local) (p : Placement) :
    (p.next + totalWidth xs < 65536 ∧ ∃ q, xs.foldlM place p = .ok q ∧ q.next < 65536) ∨
    (65536 ≤ p.next + totalWidth xs ∧ ∃ n, Overflows p.next (xs.map Local.type) n ∧
      (xs.foldlM place p >>= fun q => registerNumber q.next) = .error (.registerOverflow n)) := by
  induction xs generalizing p with
  | nil =>
    by_cases h : p.next < 65536
    · exact .inl ⟨h, p, rfl, h⟩
    · refine .inr ⟨by simpa using h, p.next, overflows_self [] (by omega), ?_⟩
      simp [registerNumber, h, bind, Except.bind, pure, Except.pure]
  | cons x xs ih =>
    rw [List.foldlM_cons, totalWidth_cons, ← Nat.add_assoc]
    by_cases h : p.next < 65536
    · rw [place_of_lt x h]
      obtain ⟨hfits, q, hq, hnext⟩ | ⟨hover, n, hn, herror⟩ :=
        ih ⟨p.numbers.setIfInBounds x.index (UInt16.ofNat p.next), p.next + x.width⟩
      · exact .inl ⟨hfits, q, hq, hnext⟩
      · exact .inr ⟨hover, n, hn.cons (by omega), herror⟩
    · rw [place_of_le x (by omega)]
      exact .inr ⟨by omega, p.next, overflows_self _ (by omega), rfl⟩

theorem placeArguments_eq {first : Nat} {moves : Array (Instruction Local)} (hfirst : first ≤ p.next) :
    xs.foldlM (placeArgument first) (p, moves) = (xs.foldlM place p >>= fun q =>
      .ok (q, moves ++ (argumentMoves (p.next - first) xs).toArray)) := by
  induction xs generalizing p moves with
  | nil => simp [argumentMoves, bind, Except.bind, pure, Except.pure]
  | cons x xs ih =>
    rw [List.foldlM_cons, List.foldlM_cons]
    by_cases h : p.next < 65536
    · have hplaced : placeArgument first (p, moves) x =
          .ok (⟨p.numbers.setIfInBounds x.index (UInt16.ofNat p.next), p.next + x.width⟩,
            moves.push (.moveParameter x (UInt16.ofNat (p.next - first)))) := by
        have hindex : p.next - first < 65536 := by omega
        simp [placeArgument, place_of_lt x h, registerNumber, hindex, bind, Except.bind, pure,
          Except.pure]
      have hoffset : p.next + x.width - first = p.next - first + x.width := by omega
      rw [hplaced, place_of_lt x h]
      refine (ih (Nat.le_add_right_of_le hfirst)).trans ?_
      simp [argumentMoves, hoffset, bind, Except.bind]
    · have hrefused : placeArgument first (p, moves) x = .error (.registerOverflow p.next) := by
        simp [placeArgument, place_of_le x (Nat.le_of_not_lt h), bind, Except.bind]
      rw [hrefused, place_of_le x (Nat.le_of_not_lt h)]
      rfl

end Placement

namespace Assembler

variable {a b : Assembler} {l : Label} {log : List Entry}

theorem layout_cases (a : Assembler) :
    (totalWidth a.frameOrder ≤ 65535 ∧ ∃ frame moves, a.layout = .ok (frame, moves)) ∨
    (65535 < totalWidth a.frameOrder ∧ ∃ n, Overflows 0 (a.frameOrder.map Local.type) n ∧
      a.layout = .error (.registerOverflow n)) := by
  have hcases := Placement.places_cases a.frameOrder ⟨Array.replicate a.nextLocal 0, 0⟩
  rw [Nat.zero_add, frameOrder, List.foldlM_append] at hcases
  rw [layout, ← Array.foldlM_toList, frameOrder]
  cases hlocals : a.locals.toList.foldlM Placement.place ⟨Array.replicate a.nextLocal 0, 0⟩ with
  | error e =>
    rw [hlocals] at hcases
    obtain ⟨-, q, hq, -⟩ | ⟨hover, n, hn, herror⟩ := hcases
    · cases hq
    · cases herror
      exact .inr ⟨by omega, n, hn, rfl⟩
  | ok p =>
    rw [hlocals] at hcases
    simp only [← Array.foldlM_toList, ok_bind, Placement.placeArguments_eq (Nat.le_refl p.next)]
    rw [ok_bind] at hcases
    cases hparameters : a.parameters.toList.foldlM Placement.place p with
    | error e =>
      rw [hparameters] at hcases
      obtain ⟨-, q, hq, -⟩ | ⟨hover, n, hn, herror⟩ := hcases
      · cases hq
      · cases herror
        exact .inr ⟨by omega, n, hn, rfl⟩
    | ok q =>
      rw [hparameters] at hcases
      obtain ⟨hfits, _, hq, hnext⟩ | ⟨hover, n, hn, herror⟩ := hcases
      · cases hq
        have hsize : q.next - p.next < 65536 := by omega
        simp only [ok_bind, registerNumber, hnext, hsize, if_true]
        exact .inl ⟨by omega, _, _, rfl⟩
      · rw [ok_bind] at herror
        refine .inr ⟨by omega, n, hn, ?_⟩
        simp only [ok_bind, herror]
        rfl

def hasCode (log : List Entry) (l : Label) : Bool := log.any (·.block = l)

theorem hasCode_iff : hasCode log l = true ↔ ∃ e ∈ log, e.block = l := by
  simp [hasCode]

def leadsTo (a : Assembler) (log : List Entry) : List Label :=
  (a.order.toList.filter (hasCode log)).flatMap fun l => (a.block l).successors

/-- Once there is code, a block is empty exactly if none of it went there: the moves of arguments stand
in front of code. -/
theorem Traced.isEmpty_iff (traced : a.Traced log) (hlog : log ≠ []) (owned : a.ownsLabel l = true) :
    (a.block l).isEmpty = !hasCode log l := by
  obtain ⟨before, run, after, spans⟩ := traced.spans l owned
  have hrun : hasCode log l = true ↔ run ≠ [] := by
    rw [hasCode_iff]
    constructor
    · rintro ⟨e, he⟩
      exact List.ne_nil_of_mem (spans.mem_run_iff.mpr he)
    · intro hne
      obtain ⟨e, he⟩ := List.exists_mem_of_ne_nil run hne
      exact ⟨e, spans.mem_run_iff.mp he⟩
  have hempty : (a.block l).isEmpty = true ↔ a.prologue l ++ run.map Entry.instruction = [] := by
    rw [← spans.code]
    simp [DraftBlock.isEmpty]
  by_cases hentry : l = ⟨a.body, 0⟩
  · obtain ⟨e, rest, rfl⟩ := List.exists_cons_of_ne_nil hlog
    have hfirst : e.block = ⟨a.body, 0⟩ := Option.some.inj traced.first
    have hcode : hasCode (e :: rest) l = true := by simp [hasCode, hfirst, hentry]
    have hne := hrun.mp hcode
    rw [hcode, Bool.eq_iff_iff, hempty]
    simp [hne]
  · rw [prologue_of_ne hentry, List.nil_append, List.map_eq_nil_iff] at hempty
    rw [Bool.eq_iff_iff, hempty, Bool.not_eq_true', ← Bool.not_eq_true, hrun, not_ne_iff]

theorem Step.emitted_silent (step : Step a none b) : b.emitted = a.emitted := by
  cases step with
  | assign frame moves unassigned layout =>
    change (a.prepend moves).emitted = a.emitted
    unfold prepend
    split <;> rfl
  | _ => rfl

theorem route_emitted (l : Label) (i : Instruction Local) (target : Option Label) :
    (a.route l i target).state.emitted = a.emitted := by
  unfold route
  split
  · split <;> rfl
  all_goals rfl

theorem Steps.emitted_iff (steps : Steps a log b) :
    b.emitted = true ↔ a.emitted = true ∨ log ≠ [] := by
  induction steps with
  | refl => simp
  | @tail b c log entry steps step ih =>
    cases entry with
    | none => simpa [step.emitted_silent] using ih
    | some e =>
      cases step with
      | append l i target current operands emits =>
        have hemitted : ((b.push l i).route l i target).state.emitted = true := route_emitted l i target
        simp [hemitted]

section Labels

variable (sound : a.Sound)
include sound

variable (traced : a.Traced log) (hlog : log ≠ [])
include traced hlog

end Labels

end Assembler

/-! A body that ends with an open block that nothing leads to, and with a label in use that got no code.
One of the calls is given a variable of another body. -/
namespace Stray

def id : BodyId := ⟨0⟩
def method : MethodId := ⟨.root, ⟨"stray", by decide⟩, .void, [.int]⟩

def x : Local := ⟨id, 1, .int⟩
def foreign : Local := ⟨⟨7⟩, 9, .int⟩
def unused : Label := ⟨id, 1⟩
def dead : Label := ⟨id, 2⟩

def calls : List Operation :=
  [.newLocal .int, .newLabel, .newLabel, .addCatch .throwable unused,
    .emit (.move x ⟨id, 0, .int⟩), .emit (.move foreign x), .removeCatch .throwable,
    .emit .returnVoid, .mark dead]

end Stray
end Dalvik
