import Dalvik.Proofs.FormatRules

/-! Declarations that are refused. A declaration is refused if it breaks a rule of its own, or if it repeats
one that was granted. Either way it leaves no trace, although it mentions its type before it is known to
be a repetition. -/
namespace Dalvik

def Request.subject? : Request → Option Declared
  | .type id .. => some (.type id)
  | .field id .. => some (.member (.field id))
  | .method _ id _ => some (.member (.method id))
  | .call .. => none

def Fact.subject? : Fact → Option Declared
  | .type id _ => some (.type id)
  | .field id _ => some (.member (.field id))
  | .method x => some (.member (.method x.id))
  | .call .. => none

def Told (facts : List Fact) (s : Declared) : Prop := ∃ fact ∈ facts, fact.subject? = some s

section Told

variable {facts : List Fact} {s : Declared}

theorem mem_iff_told {view : Fact → Option α} {key : α → β} {b : β}
    (h : ∀ fact, fact.subject? = some s ↔ ∃ x, view fact = some x ∧ key x = b) :
    b ∈ (facts.filterMap view).map key ↔ Told facts s := by
  simp only [Told, List.mem_map, List.mem_filterMap, h]
  constructor
  · rintro ⟨x, ⟨fact, hmem, hx⟩, hkey⟩
    exact ⟨fact, hmem, x, hx, hkey⟩
  · rintro ⟨fact, hmem, x, hx, hkey⟩
    exact ⟨x, ⟨fact, hmem, hx⟩, hkey⟩

theorem told_type {t : Ty} : t ∈ typesDeclared facts ↔ Told facts (.type t) := by
  refine mem_iff_told fun fact => ?_
  cases fact <;> simp [Fact.subject?, Fact.type?]

theorem told_field {f : FieldId} : f ∈ fieldsDeclared facts ↔ Told facts (.member (.field f)) := by
  refine mem_iff_told fun fact => ?_
  cases fact <;> simp [Fact.subject?, Fact.field?]

theorem told_method {m : MethodId} :
    m ∈ methodsDeclared facts ↔ Told facts (.member (.method m)) := by
  refine mem_iff_told fun fact => ?_
  cases fact <;> simp [Fact.subject?, Fact.method?]

end Told

def Declared.duplicate : Declared → Error
  | .type t => .duplicateType t
  | .member (.field f) => .duplicateField f
  | .member (.method m) => .duplicateMethod m

def Error.isDuplicate : Error → Bool
  | .duplicateType _ | .duplicateField _ | .duplicateMethod _ => true
  | _ => false

theorem Declared.isDuplicate_duplicate (s : Declared) : s.duplicate.isDuplicate = true := by
  rcases s with s | s | s <;> rfl

theorem Declared.duplicate_injective {s t : Declared} (h : s.duplicate = t.duplicate) : s = t := by
  rcases s with s | s | s <;> rcases t with t | t | t <;> cases h <;> rfl

namespace Draft

variable {facts : List Fact} {history : List Request} {request : Request} {s : Declared}

section Rules

variable {e : Error} {flags : AccessFlags}

theorem checkFlags_isDuplicate {declared : Declared} {allowed : AccessFlags}
    (h : checkFlags declared flags allowed = .error e) : e.isDuplicate = false := by
  simp only [checkFlags] at h
  split at h <;> cases h
  rfl

theorem checkClass_isDuplicate {t : Ty} (h : checkClass t = .error e) : e.isDuplicate = false := by
  unfold checkClass at h
  split at h <;> cases h
  rfl

theorem checkType_isDuplicate {id superclass : Ty} {interfaces : List Ty}
    (h : checkType id flags superclass interfaces = .error e) : e.isDuplicate = false := by
  simp only [checkType, bind_eq_error] at h
  rcases h with h | ⟨_, -, h | ⟨_, -, h | ⟨_, -, h⟩⟩⟩
  · exact checkClass_isDuplicate h
  · exact checkClass_isDuplicate h
  · obtain ⟨t, -, ht⟩ := forM_eq_error h
    exact checkClass_isDuplicate ht
  · exact checkFlags_isDuplicate h

theorem checkField_isDuplicate {id : FieldId} {value : Option Constant}
    (h : checkField id flags value = .error e) : e.isDuplicate = false := by
  simp only [checkField] at h
  split at h
  · cases h
    rfl
  · obtain h | ⟨_, -, h⟩ := bind_eq_error.mp h
    · exact checkFlags_isDuplicate h
    · cases value with
      | none => cases h
      | some c =>
        simp only at h
        split at h
        · cases h
          rfl
        · split at h <;> cases h
          rfl

theorem methodFlags_isDuplicate {id : MethodId} (h : methodFlags id flags = .error e) :
    e.isDuplicate = false := by
  simp only [methodFlags, bind_eq_error] at h
  obtain h | ⟨_, -, h⟩ := h
  · exact checkFlags_isDuplicate h
  · split at h <;> cases h
    rfl

theorem check_isDuplicate (h : request.check = .error e) : e.isDuplicate = false := by
  cases request with
  | type id sourceFile flags superclass interfaces => exact checkType_isDuplicate h
  | field id flags value => exact checkField_isDuplicate h
  | method body id flags =>
    cases hflags : methodFlags id flags with
    | ok stored => simp [Request.check, hflags, Except.map] at h
    | error e' =>
      obtain rfl : e' = e := by simpa [Request.check, hflags, Except.map] using h
      exact methodFlags_isDuplicate hflags
  | call m operation => cases h

end Rules

/-- Some request of the history declared it, and succeeded. -/
def DeclaredIn (history : List Request) (s : Declared) : Prop :=
  ∃ before request after answer, history = before ++ request :: after ∧
    request.subject? = some s ∧ ((empty.runAll before).run request).result = .ok answer

theorem subject_fact (request : Request) : request.fact.subject? = request.subject? := by
  cases request <;> rfl

theorem isGranted_iff_ok (hs : request.subject? = some s) {result : Except Error Answer} :
    request.isGranted result = true ↔ ∃ answer, result = .ok answer := by
  cases request with
  | call m operation => cases hs
  | _ => cases result <;> simp [Request.isGranted]

theorem declaredIn_iff : DeclaredIn history s ↔ Told (empty.facts history) s := by
  constructor
  · rintro ⟨before, request, after, answer, rfl, hs, hresult⟩
    have granted := (isGranted_iff_ok hs).mpr ⟨answer, hresult⟩
    exact ⟨request.fact, mem_facts.mpr ⟨before, request, after, rfl, if_pos granted⟩,
      (subject_fact request).trans hs⟩
  · rintro ⟨fact, hmem, hs⟩
    obtain ⟨before, request, after, rfl, hfact⟩ := mem_facts.mp hmem
    obtain ⟨granted, hsame⟩ := Option.ite_none_right_eq_some.mp hfact
    rw [← Option.some.inj hsame, subject_fact] at hs
    obtain ⟨answer, hresult⟩ := (isGranted_iff_ok hs).mp granted
    exact ⟨before, request, after, answer, rfl, hs, hresult⟩

/-- A declaration follows unless the same thing was declared before. -/
theorem follows_iff (hs : request.subject? = some s) :
    request.Follows facts ↔ ¬Told facts s := by
  cases request with
  | call m operation => cases hs
  | type id sourceFile flags superclass interfaces =>
    obtain rfl := Option.some.inj hs
    exact told_type.not
  | field id flags value =>
    obtain rfl := Option.some.inj hs
    exact told_field.not
  | method body id flags =>
    obtain rfl := Option.some.inj hs
    exact told_method.not

theorem refusal_eq (hs : request.subject? = some s) : request.refusal = .error s.duplicate := by
  cases request <;> cases hs <;> rfl

theorem exists_answer (facts : List Fact) (hs : request.subject? = some s) :
    ∃ answer, request.answer facts = .ok answer := by
  cases request with
  | call m operation => cases hs
  | _ => exact ⟨_, rfl⟩

/-- A declaration that fails leaves the draft as it is. It fails as a repetition if and only if it obeys
every other rule and an earlier declaration of the same thing succeeded. -/
theorem run_repetition (history : List Request) (request : Request) (s : Declared)
    (hs : request.subject? = some s) :
    let d := empty.runAll history
    (∀ e, (d.run request).result = .error e → (d.run request).state = d) ∧
    ∀ t : Declared, (d.run request).result = .error t.duplicate ↔
      t = s ∧ request.InOrder ∧ DeclaredIn history s := by
  intro d
  obtain ⟨holds, tidy⟩ := empty_holds history
  rw [declaredIn_iff, ← check_eq_ok]
  cases hcheck : request.check with
  | error e =>
    obtain ⟨hresult, hstate⟩ := run_unchecked (d := d) hcheck
    refine ⟨fun _ _ => hstate, fun t => ?_⟩
    have hother : e ≠ t.duplicate := by
      rintro rfl
      simpa [t.isDuplicate_duplicate] using check_isDuplicate hcheck
    simp [hresult, hother]
  | ok =>
    by_cases follows : request.Follows (empty.facts history)
    · obtain ⟨answer, hanswer⟩ := exists_answer (empty.facts history) hs
      have hresult := (holds.run_admitted tidy hcheck follows).1.trans hanswer
      have hnew := (follows_iff hs).mp follows
      simp [d, hresult, hnew]
    · obtain ⟨hresult, hstate⟩ := holds.run_repeated tidy hcheck follows
      have hrepeated := not_not.mp ((follows_iff hs).not.mp follows)
      refine ⟨fun _ _ => hstate, fun t => ?_⟩
      rw [hresult, refusal_eq hs]
      constructor
      · intro h
        exact ⟨(Declared.duplicate_injective (Except.error.inj h)).symm, rfl, hrepeated⟩
      · rintro ⟨rfl, -⟩
        rfl

end Draft

/-! A class that is declared after one of its fields. The field is declared again with other flags, once
the class has a method too. -/
namespace Ledger

def ledger : Ty := .object ⟨"Ledger", by decide⟩
def balances : FieldId := ⟨ledger, ⟨"balances", by decide⟩, .int⟩
def post : MethodId := ⟨ledger, ⟨"post", by decide⟩, .void, [.int]⟩

def calls : List Request :=
  [.field balances .static (some (.int 7)), .type ledger none .abstract .root [],
    .method ⟨0⟩ post .static, .call post (.emit .returnVoid)]

def again : Request := .field balances .empty none

theorem declared_again :
    again.subject? = some (.member (.field balances)) ∧
      ((Draft.empty.runAll calls).run again).result = .error (.duplicateField balances) ∧
      (∀ e, ((Draft.empty.runAll calls).run again).result = .error e →
        ((Draft.empty.runAll calls).run again).state = Draft.empty.runAll calls) ∧
      ∀ t : Declared, ((Draft.empty.runAll calls).run again).result = .error t.duplicate ↔
        t = .member (.field balances) ∧ again.InOrder ∧
          Draft.DeclaredIn calls (.member (.field balances)) :=
  ⟨rfl, by decide, Draft.run_repetition calls again (.member (.field balances)) rfl⟩

end Ledger
end Dalvik
