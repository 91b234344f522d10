import Dalvik.Proofs.Inventory
import Dalvik.Proofs.Outcomes
import Dalvik.Proofs.Prototypes
import Dalvik.Proofs.Repetition

/-! What finishing a unit comes to. Members whose types were never declared are reported together, whatever
became of the bodies. If there are none, then the first method that cannot be finished decides, types by
their first mention and methods in the order of their declaration. -/
namespace Dalvik

section Spec

variable (facts : List Fact)

/-- The members of a type in the order of their declaration, fields before methods. -/
def membersOf (t : Ty) : List Member :=
  ((fieldsDeclared facts).filter (·.owner = t)).map .field ++
    ((methodsDeclared facts).filter (·.owner = t)).map .method

def strays : List Member :=
  ((mentioned facts).filter (· ∉ typesDeclared facts)).flatMap (membersOf facts)

def methodsByType : List MethodFact := (mentioned facts).flatMap (methodsOf facts)

/-- What is wrong with a method. One that is abstract or native must not have any code, and any other
must have a body that can be finished. -/
def fault? (x : MethodFact) : Option Error :=
  if x.flags.contains .abstract || x.flags.contains .native then
    let log := (Assembler.start x.body x.id (x.flags.contains .static)).log (callsOn facts x.id)
    if log.isEmpty then none else some (.bodilessMethodWithCode x.id)
  else failure? (bodyOf facts x).finish.result

end Spec

section Members

variable {facts : List Fact}

theorem members_entryOf (t : Ty) : (entryOf facts t).members = membersOf facts t := by
  simp only [TypeEntry.members, entryOf, Registry.entries_ofEntries, membersOf, ← map_fieldsOf,
    ← map_methodsOf, List.map_map]
  rfl

theorem mem_membersOf {t : Ty} {m : Member} :
    m ∈ membersOf facts t ↔ Told facts (.member m) ∧ m.owner = t := by
  cases m with
  | field f => simp [membersOf, told_field, Member.owner]
  | method m => simp [membersOf, told_method, Member.owner]

theorem mentioned_of_told {m : Member} (h : Told facts (.member m)) : m.owner ∈ mentioned facts := by
  cases m with
  | field f => exact mentioned_of_mem_fieldsDeclared (told_field.mpr h)
  | method m => exact mentioned_of_mem_methodsDeclared (told_method.mpr h)

theorem mem_strays {m : Member} :
    m ∈ strays facts ↔ Told facts (.member m) ∧ ¬Told facts (.type m.owner) := by
  simp only [strays, List.mem_flatMap, List.mem_filter, decide_eq_true_eq, mem_membersOf, told_type]
  constructor
  · rintro ⟨t, ⟨-, undeclared⟩, told, rfl⟩
    exact ⟨told, undeclared⟩
  · rintro ⟨told, undeclared⟩
    exact ⟨m.owner, ⟨mentioned_of_told told, undeclared⟩, told, rfl⟩

theorem nodup_strays (tidy : Tidy facts) : (strays facts).Nodup := by
  rw [strays, List.nodup_flatMap]
  constructor
  · intro t _
    rw [membersOf, List.nodup_append']
    refine ⟨(tidy.fields.filter _).map fun _ _ => Member.field.inj,
      (tidy.methods.filter _).map fun _ _ => Member.method.inj, ?_⟩
    intro m hfield hmethod
    obtain ⟨f, -, rfl⟩ := List.mem_map.mp hfield
    obtain ⟨m, -, hm⟩ := List.mem_map.mp hmethod
    cases hm
  · -- members of different types are different, since each belongs to one
    have distinct : ((mentioned facts).filter (· ∉ typesDeclared facts)).Nodup :=
      (nodup_eraseDups _).filter _
    apply distinct.imp
    intro t u hne m ht hu
    exact hne ((mem_membersOf.mp ht).2.symm.trans (mem_membersOf.mp hu).2)

theorem isEmpty_bodyOf (x : MethodFact) : (bodyOf facts x).isEmpty =
    ((Assembler.start x.body x.id (x.flags.contains .static)).log (callsOn facts x.id)).isEmpty := by
  have hemitted := (Assembler.runAll_steps
    (a := .start x.body x.id (x.flags.contains .static)) (callsOn facts x.id)).emitted_iff
  have hstart : (Assembler.start x.body x.id (x.flags.contains .static)).emitted = false := rfl
  rw [hstart] at hemitted
  rw [Assembler.isEmpty, Bool.eq_iff_iff, Bool.not_eq_true', ← Bool.not_eq_true, bodyOf, hemitted]
  simp

theorem failure?_define (x : MethodFact) :
    failure? (MethodEntry.define x.id ⟨x.flags, bodyOf facts x⟩).result = fault? facts x := by
  simp only [MethodEntry.define, fault?, AccessFlags.isBodiless_eq, isEmpty_bodyOf]
  split
  · split <;> rfl
  · exact failure?_map _ _

/-- A class can be made if and only if its methods can, and the first that cannot is the reason. -/
theorem findSome?_definitions {ts : List Ty} (declared : ∀ t ∈ ts, t ∈ typesDeclared facts) :
    ((ts.filterMap fun t => (definition? facts t).map (t, entryOf facts t, ·)).findSome?
        fun x => failure? (x.2.1.define x.1 x.2.2).result) =
      (ts.flatMap (methodsOf facts)).findSome? (fault? facts) := by
  induction ts with
  | nil => rfl
  | cons t ts ih =>
    rw [List.forall_mem_cons] at declared
    cases h : definition? facts t with
    | none => exact absurd declared.1 (definition?_eq_none.mp h)
    | some definition =>
      have hclass : failure? ((entryOf facts t).define t definition).result =
          (methodsOf facts t).findSome? (fault? facts) := by
        rw [TypeEntry.result_define, failure?_map, failure?_mapM, entryOf, Registry.entries_ofEntries,
          List.findSome?_map]
        congr 1
        funext x
        exact failure?_define x
      simp only [List.filterMap_cons, h, Option.map_some, List.findSome?_cons, hclass,
        ih declared.2, List.flatMap_cons, List.findSome?_append]
      cases (methodsOf facts t).findSome? (fault? facts) <;> rfl

end Members

namespace Draft

variable {d : Draft} {facts : List Fact}

theorem Holds.dangling_eq (holds : d.Holds facts) : d.dangling = strays facts := by
  have hundefined : (fun t => (entryOf facts t).definition.isNone) =
      fun t => decide (t ∉ typesDeclared facts) := by
    funext t
    rw [Bool.eq_iff_iff, Option.isNone_iff_eq_none, decide_eq_true_eq]
    exact definition?_eq_none
  rw [dangling, holds, Registry.entries_tabulate, List.filter_map, List.flatMap_map, strays, ← hundefined]
  congr 1
  funext t
  exact members_entryOf t

theorem Holds.failure?_finalize (holds : d.Holds facts) (declared : strays facts = []) :
    failure? d.finalize.result = (methodsByType facts).findSome? (fault? facts) := by
  have hdangling := holds.dangling_eq.trans declared
  have hfinalize : d.finalize.result = CompilationUnit.mk <$>
      d.definitions.mapM fun x => (x.2.1.define x.1 x.2.2).result := by
    simp only [finalize, hdangling, List.isEmpty_nil, Bool.not_true, Bool.false_eq_true, if_false,
      Outcome.result_andThen, Outcome.result_traverse]
    rfl
  rw [hfinalize, failure?_map, failure?_mapM, holds.definitions_eq]
  exact findSome?_definitions (holds.dangling_eq_nil.mp hdangling)

structure Verdict (d : Draft) (history : List Request) : Prop where
  nodup : (strays (empty.facts history)).Nodup
  mem : ∀ m, m ∈ strays (empty.facts history) ↔
    DeclaredIn history (.member m) ∧ ¬DeclaredIn history (.type m.owner)
  /-- The error gives one text for each of them, in the same order. -/
  texts : ∃ texts : List String,
    (Error.undeclaredTypes (strays (empty.facts history))).message =
      "members defined on undeclared types: " ++ ", ".intercalate texts ∧
    List.Forall₂ Member.ReadAs (strays (empty.facts history)) texts ∧
    ((∀ m ∈ strays (empty.facts history), m.name.IsPlain) → texts.Nodup)
  /-- Stray members are reported whatever the bodies are like. -/
  undeclared : ∀ m, DeclaredIn history (.member m) → ¬DeclaredIn history (.type m.owner) →
    d.finalize.result = .error (.undeclaredTypes (strays (empty.facts history)))
  faulty : (∀ m, DeclaredIn history (.member m) → DeclaredIn history (.type m.owner)) →
    ∀ e, (methodsByType (empty.facts history)).findSome? (fault? (empty.facts history)) = some e →
      d.finalize.result = .error e
  finished : (∀ m, DeclaredIn history (.member m) → DeclaredIn history (.type m.owner)) →
    (methodsByType (empty.facts history)).findSome? (fault? (empty.facts history)) = none →
      ∃ unit, d.finalize.result = .ok unit ∧
        unit.classes.map ClassDef.id = d.types.entries.map Prod.fst

/-- Whatever calls were made on a new draft, finishing it reports all members of undeclared types if there
are any, or else the first method that cannot be finished; and without such it gives one class for each
type that was mentioned. -/
theorem finalize_verdict (history : List Request) : (empty.runAll history).Verdict history := by
  obtain ⟨holds, tidy⟩ := empty_holds history
  have hmem : ∀ m, m ∈ strays (empty.facts history) ↔
      DeclaredIn history (.member m) ∧ ¬DeclaredIn history (.type m.owner) := by
    intro m
    rw [mem_strays, declaredIn_iff, declaredIn_iff]
  have hnone : (∀ m, DeclaredIn history (.member m) → DeclaredIn history (.type m.owner)) →
      strays (empty.facts history) = [] := by
    intro declared
    rw [List.eq_nil_iff_forall_not_mem]
    intro m hm
    obtain ⟨told, undeclared⟩ := (hmem m).mp hm
    exact undeclared (declared m told)
  refine ⟨nodup_strays tidy, hmem, ⟨(strays (empty.facts history)).map Member.text, rfl, ?_, ?_⟩, ?_, ?_, ?_⟩
  · rw [List.forall₂_map_right_iff, List.forall₂_same]
    exact fun m _ => m.readAs_text
  · intro plain
    apply (nodup_strays tidy).map_on
    intro m hm m' hm' htext
    exact m.readAs_text.eq (htext ▸ m'.readAs_text) (plain m hm) (plain m' hm')
  · intro m told undeclared
    have hne : (empty.runAll history).dangling ≠ [] := by
      rw [holds.dangling_eq]
      exact List.ne_nil_of_mem ((hmem m).mpr ⟨told, undeclared⟩)
    simp [finalize, hne, Outcome.fail, ← holds.dangling_eq]
  · intro declared e he
    rw [← holds.failure?_finalize (hnone declared)] at he
    exact failure?_eq_some.mp he
  · intro declared hfaultless
    rw [← holds.failure?_finalize (hnone declared)] at hfaultless
    obtain ⟨unit, hunit⟩ := failure?_eq_none.mp hfaultless
    refine ⟨unit, hunit, ?_⟩
    rw [holds.classIds hunit, holds, Registry.keys_tabulate]

end Draft
end Dalvik
