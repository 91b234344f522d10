import Dalvik.Draft.Finalize
import Dalvik.Proofs.Declarations
import Dalvik.Proofs.Flags

/-! Finished units are inventories of what was declared: each class, field and method that a draft was
told of is in the unit, in its place, and nothing else is. -/
namespace Dalvik

namespace Outcome

theorem result_andThen (first : Outcome σ α) (next : σ → α → Outcome σ β) :
    (first.andThen next).result = first.result >>= fun value => (next first.state value).result := by
  obtain ⟨result, state, events⟩ := first
  cases result <;> rfl

theorem result_traverse (step : α → Outcome Unit β) (xs : List α) :
    (traverse step xs).result = xs.mapM fun x => (step x).result := by
  induction xs with
  | nil => rfl
  | cons x xs ih =>
    rw [traverse, result_andThen, List.mapM_cons, ← ih]
    rfl

end Outcome

namespace TypeEntry

def classDef (id : Ty) (entry : TypeEntry) (definition : TypeDefinition) (methods : List MethodDef) :
    ClassDef where
  id := id
  flags := definition.flags
  superclass := definition.superclass
  interfaces := definition.interfaces
  sourceFile := definition.sourceFile
  staticFields := entry.fieldDefs.filter FieldDef.isStatic
  instanceFields := entry.fieldDefs.filter (!·.isStatic)
  directMethods := methods.filter MethodDef.isDirect
  virtualMethods := methods.filter (!·.isDirect)

theorem result_define (id : Ty) (entry : TypeEntry) (definition : TypeDefinition) :
    (entry.define id definition).result = entry.classDef id definition <$>
      entry.methods.entries.mapM fun m => (MethodEntry.define m.1 m.2).result := by
  rw [define, Outcome.map, Outcome.result_traverse]
  rfl

end TypeEntry

theorem not_mem_mentioned {facts : List Fact} {t : Ty} (undefined : t ∉ typesDeclared facts)
    (h : (entryOf facts t).members = []) : t ∉ mentioned facts := by
  rw [mem_mentioned]
  rintro ⟨fact, hfact, howner⟩
  simp only [TypeEntry.members, entryOf, Registry.entries_ofEntries, List.append_eq_nil_iff,
    List.map_eq_nil_iff] at h
  cases fact with
  | type id definition =>
    obtain rfl := Option.some.inj howner
    exact undefined (mem_typesDeclared.mpr ⟨definition, hfact⟩)
  | field id entry =>
    have hmem : (id, entry) ∈ fieldsOf facts t := mem_fieldsOf.mpr ⟨hfact, Option.some.inj howner⟩
    rw [h.1] at hmem
    cases hmem
  | method x =>
    have hmem : x ∈ methodsOf facts t := mem_methodsOf.mpr ⟨hfact, Option.some.inj howner⟩
    rw [h.2] at hmem
    cases hmem
  | call => cases howner

def ClassDef.IsOf (c : ClassDef) (facts : List Fact) (t : Ty) : Prop :=
  ∃ definition, definition? facts t = some definition ∧
    ((entryOf facts t).define t definition).result = .ok c

namespace Draft

variable {d : Draft} {facts : List Fact} {unit : CompilationUnit}

theorem Holds.dangling_eq_nil (holds : d.Holds facts) :
    d.dangling = [] ↔ ∀ t ∈ mentioned facts, t ∈ typesDeclared facts := by
  unfold dangling
  rw [holds, List.flatMap_eq_nil_iff]
  constructor
  · intro h t ht
    by_contra undefined
    have hentry : (t, entryOf facts t) ∈
        (Registry.tabulate (mentioned facts) (entryOf facts)).entries.filter
          (·.2.definition.isNone) := by
      rw [List.mem_filter, Option.isNone_iff_eq_none]
      exact ⟨List.mem_map_of_mem ht, definition?_eq_none.mpr undefined⟩
    exact not_mem_mentioned undefined (h _ hentry) ht
  · intro h entry hentry
    obtain ⟨hmem, hnone⟩ := List.mem_filter.mp hentry
    obtain ⟨t, ht, rfl⟩ := List.mem_map.mp hmem
    exact absurd (h t ht) (definition?_eq_none.mp (Option.isNone_iff_eq_none.mp hnone))

theorem Holds.definitions_eq (holds : d.Holds facts) : d.definitions =
    (mentioned facts).filterMap fun t => (definition? facts t).map (t, entryOf facts t, ·) := by
  unfold definitions
  rw [holds, Registry.entries_tabulate, List.filterMap_map]
  rfl

theorem forall₂_definitions {ts : List Ty} (defined : ∀ t ∈ ts, t ∈ typesDeclared facts)
    {classes : List ClassDef} :
    List.Forall₂
        (fun (x : Ty × TypeEntry × TypeDefinition) c => (x.2.1.define x.1 x.2.2).result = .ok c)
        (ts.filterMap fun t => (definition? facts t).map (t, entryOf facts t, ·)) classes ↔
      List.Forall₂ (fun t c => ClassDef.IsOf c facts t) ts classes := by
  induction ts generalizing classes with
  | nil => simp
  | cons t ts ih =>
    rw [List.forall_mem_cons] at defined
    cases h : definition? facts t with
    | none => exact absurd defined.1 (definition?_eq_none.mp h)
    | some definition =>
      simp only [List.filterMap_cons, h, Option.map_some, List.forall₂_cons_left_iff, ih defined.2,
        ClassDef.IsOf, Option.some.injEq, exists_eq_left']

theorem Holds.finalize_eq_ok (holds : d.Holds facts) : d.finalize.result = .ok unit ↔
    (∀ t ∈ mentioned facts, t ∈ typesDeclared facts) ∧
      List.Forall₂ (fun t c => ClassDef.IsOf c facts t) (mentioned facts) unit.classes := by
  simp only [finalize, ← holds.dangling_eq_nil]
  by_cases h : d.dangling = []
  · have defined := holds.dangling_eq_nil.mp h
    simp only [h, List.isEmpty_nil, Bool.not_true, Bool.false_eq_true, if_false, true_and,
      Outcome.result_andThen, Outcome.result_traverse, holds.definitions_eq, bind_eq_ok, mapM_eq_ok,
      forall₂_definitions defined]
    constructor
    · rintro ⟨classes, hclasses, hunit⟩
      obtain rfl := Except.ok.inj hunit
      exact hclasses
    · exact fun hclasses => ⟨unit.classes, hclasses, rfl⟩
  · simp [h, Outcome.fail]

end Draft

/-- A method is as it was declared. Abstract and native methods have no body, and all others the
finished one. -/
structure MethodDef.Shows (m : MethodDef) (facts : List Fact) (x : MethodFact) : Prop where
  id : m.id = x.id
  flags : m.flags = x.flags
  bodiless : x.flags.contains .abstract = true ∨ x.flags.contains .native = true → m.body = none
  code : x.flags.contains .abstract = false → x.flags.contains .native = false →
    ∃ body, m.body = some body ∧ (bodyOf facts x).finish.result = .ok body

/-- Static and private methods and initializers are called without a look at the class of the receiver. -/
def MethodFact.isDirect (x : MethodFact) : Bool :=
  x.flags.contains .static || x.flags.contains .privateAccess || x.flags.contains .constructor

/-- A class is as it was declared: the definition is that of its type, and the members are those of its
type, sorted by kind and otherwise in order. -/
structure ClassDef.Shows (c : ClassDef) (facts : List Fact) : Prop where
  definition : definition? facts c.id = some ⟨c.flags, c.superclass, c.interfaces, c.sourceFile⟩
  staticFields : c.staticFields =
    ((fieldsOf facts c.id).filter (·.2.flags.contains .static)).map
      fun f => ⟨f.1, f.2.flags, f.2.value⟩
  instanceFields : c.instanceFields =
    ((fieldsOf facts c.id).filter (!·.2.flags.contains .static)).map
      fun f => ⟨f.1, f.2.flags, f.2.value⟩
  directMethods : List.Forall₂ (fun x m => MethodDef.Shows m facts x)
    ((methodsOf facts c.id).filter MethodFact.isDirect) c.directMethods
  virtualMethods : List.Forall₂ (fun x m => MethodDef.Shows m facts x)
    ((methodsOf facts c.id).filter (!·.isDirect)) c.virtualMethods

theorem MethodEntry.shows_of_define {facts : List Fact} {x : MethodFact} {m : MethodDef}
    (h : (MethodEntry.define x.id ⟨x.flags, bodyOf facts x⟩).result = .ok m) : m.Shows facts x := by
  unfold MethodEntry.define at h
  simp only [AccessFlags.isBodiless_eq, Bool.or_eq_true] at h
  split at h
  · rename_i hbodiless
    split at h
    · obtain rfl := Except.ok.inj h
      exact ⟨rfl, rfl, fun _ => rfl, fun habstract hnative => by simp [habstract, hnative] at hbodiless⟩
    · cases h
  · rename_i hbody
    obtain ⟨body, hfinish, rfl⟩ := map_eq_ok.mp h
    exact ⟨rfl, rfl, fun hbodiless => absurd hbodiless hbody, fun _ _ => ⟨body, rfl, hfinish⟩⟩

theorem ClassDef.IsOf.shows {facts : List Fact} {t : Ty} {c : ClassDef} (h : c.IsOf facts t) :
    c.id = t ∧ c.Shows facts := by
  obtain ⟨definition, hdefinition, hdefine⟩ := h
  rw [TypeEntry.result_define, map_eq_ok] at hdefine
  obtain ⟨methods, hmethods, rfl⟩ := hdefine
  rw [mapM_eq_ok] at hmethods
  have hshows : List.Forall₂ (fun x m => MethodDef.Shows m facts x) (methodsOf facts t) methods := by
    rw [entryOf, Registry.entries_ofEntries, List.forall₂_map_left_iff] at hmethods
    exact hmethods.imp fun _ _ => MethodEntry.shows_of_define
  have hkind {x : MethodFact} {m : MethodDef} (hm : m.Shows facts x) : x.isDirect = m.isDirect := by
    rw [MethodDef.isDirect, AccessFlags.isDirect_eq, hm.flags]
    rfl
  refine ⟨rfl, hdefinition, List.filter_map, List.filter_map, List.rel_filter ?_ hshows,
    List.rel_filter ?_ hshows⟩
  · intro x m hm
    simp only [hkind hm]
  · intro x m hm
    simp only [hkind hm]

theorem map_eq_of_forall₂ {R : α → β → Prop} {f : α → γ} {g : β → γ}
    (agree : ∀ x y, R x y → g y = f x) {xs : List α} {ys : List β} (h : List.Forall₂ R xs ys) :
    ys.map g = xs.map f := by
  induction h with
  | nil => rfl
  | cons hxy _ ih => rw [List.map_cons, List.map_cons, agree _ _ hxy, ih]

theorem exists_of_mem_right {R : α → β → Prop} {xs : List α} {ys : List β}
    (h : List.Forall₂ R xs ys) {y : β} (hy : y ∈ ys) : ∃ x ∈ xs, R x y := by
  induction h with
  | nil => cases hy
  | cons hxy _ ih =>
    obtain rfl | hy := List.mem_cons.mp hy
    · exact ⟨_, List.mem_cons_self, hxy⟩
    · obtain ⟨x, hx, h⟩ := ih hy
      exact ⟨x, List.mem_cons_of_mem _ hx, h⟩

namespace ClassDef.Shows

variable {facts : List Fact} {c : ClassDef}

theorem fieldIds (shows : c.Shows facts) :
    (c.fields.map FieldDef.id).Perm ((fieldsDeclared facts).filter (·.owner = c.id)) := by
  rw [← map_fieldsOf, fields, shows.staticFields, shows.instanceFields, ← List.map_append, List.map_map]
  exact (List.filter_append_perm _ _).map _

theorem methodIds (shows : c.Shows facts) :
    (c.methods.map MethodDef.id).Perm ((methodsDeclared facts).filter (·.owner = c.id)) := by
  rw [← map_methodsOf, methods, List.map_append, map_eq_of_forall₂ (fun _ _ h => h.id) shows.directMethods,
    map_eq_of_forall₂ (fun _ _ h => h.id) shows.virtualMethods, ← List.map_append]
  exact (List.filter_append_perm _ _).map _

end ClassDef.Shows

theorem nodup_members {classes : List ClassDef} (distinct : (classes.map ClassDef.id).Nodup)
    {κ : Type} {declared : List κ} (nodup : declared.Nodup) {owner : κ → Ty}
    {members : ClassDef → List κ}
    (h : ∀ c ∈ classes, (members c).Perm (declared.filter (owner · = c.id))) :
    (classes.flatMap members).Nodup := by
  rw [List.nodup_flatMap]
  constructor
  · intro c hc
    rw [(h c hc).nodup_iff]
    exact nodup.filter _
  · rw [List.Nodup, List.pairwise_map] at distinct
    apply distinct.imp_of_mem
    intro c e hc he hne k hk hk'
    have howner : owner k = c.id := by simpa using (List.mem_filter.mp ((h c hc).mem_iff.mp hk)).2
    have howner' : owner k = e.id := by simpa using (List.mem_filter.mp ((h e he).mem_iff.mp hk')).2
    exact hne (howner.symm.trans howner')

namespace CompilationUnit

theorem class?_eq_none {unit : CompilationUnit} {t : Ty} :
    unit.class? t = none ↔ t ∉ unit.classes.map ClassDef.id := by
  simp [class?]

theorem class?_eq_some {unit : CompilationUnit} (distinct : (unit.classes.map ClassDef.id).Nodup)
    {t : Ty} {c : ClassDef} : unit.class? t = some c ↔ c ∈ unit.classes ∧ c.id = t :=
  find?_key_eq_some distinct

end CompilationUnit

/-- A unit contains what was declared, each once, and nothing else. -/
structure CompilationUnit.Inventory (unit : CompilationUnit) (facts : List Fact) : Prop where
  /-- Classes stand in the order in which their types were first mentioned. -/
  order : unit.classes.map ClassDef.id = mentioned facts
  complete : ∀ t, t ∈ unit.classes.map ClassDef.id ↔ t ∈ typesDeclared facts
  defined : (typesDeclared facts).Nodup
  shows : ∀ c ∈ unit.classes, c.Shows facts
  classIds : (unit.classes.map ClassDef.id).Nodup
  fieldIds : ((unit.classes.flatMap ClassDef.fields).map FieldDef.id).Nodup
  methodIds : ((unit.classes.flatMap ClassDef.methods).map MethodDef.id).Nodup
  found : ∀ t c, unit.class? t = some c ↔ c ∈ unit.classes ∧ c.id = t
  missing : ∀ t, unit.class? t = none ↔ t ∉ typesDeclared facts

namespace Draft

theorem Holds.classIds {d : Draft} {facts : List Fact} {unit : CompilationUnit} (holds : d.Holds facts)
    (h : d.finalize.result = .ok unit) : unit.classes.map ClassDef.id = mentioned facts := by
  have hids := map_eq_of_forall₂ (f := id) (fun t c hc => hc.shows.1) (holds.finalize_eq_ok.mp h).2
  rwa [List.map_id] at hids

theorem Holds.nodup_classIds {d : Draft} {facts : List Fact} {unit : CompilationUnit}
    (holds : d.Holds facts) (h : d.finalize.result = .ok unit) :
    (unit.classes.map ClassDef.id).Nodup := by
  rw [holds.classIds h]
  exact nodup_eraseDups _

/-- Whatever calls were made on a new draft, granted or refused, if it finishes, then with exactly what
was declared. -/
theorem finalize_inventory (history : List Request) (unit : CompilationUnit)
    (h : (empty.runAll history).finalize.result = .ok unit) :
    unit.Inventory (empty.facts history) := by
  obtain ⟨holds, tidy⟩ := empty_holds history
  obtain ⟨defined, classes⟩ := holds.finalize_eq_ok.mp h
  have order := holds.classIds h
  have distinct := holds.nodup_classIds h
  have shows : ∀ c ∈ unit.classes, c.Shows (empty.facts history) := by
    intro c hc
    obtain ⟨t, -, hof⟩ := exists_of_mem_right classes hc
    exact hof.shows.2
  have complete (t : Ty) :
      t ∈ unit.classes.map ClassDef.id ↔ t ∈ typesDeclared (empty.facts history) := by
    rw [order]
    constructor
    · exact defined t
    · intro ht
      obtain ⟨definition, hmem⟩ := mem_typesDeclared.mp ht
      exact mem_mentioned.mpr ⟨_, hmem, rfl⟩
  refine ⟨order, complete, tidy.types, shows, distinct, ?_, ?_, ?_, ?_⟩
  · rw [List.map_flatMap]
    exact nodup_members distinct tidy.fields fun c hc => (shows c hc).fieldIds
  · rw [List.map_flatMap]
    exact nodup_members distinct tidy.methods fun c hc => (shows c hc).methodIds
  · exact fun t c => CompilationUnit.class?_eq_some distinct
  · intro t
    rw [CompilationUnit.class?_eq_none, complete]

end Draft

namespace Counter

def counter : Ty := .object ⟨"Counter", by decide⟩
def shape : Ty := .object ⟨"Shape", by decide⟩

def total : FieldId := ⟨counter, ⟨"total", by decide⟩, .int⟩
def count : FieldId := ⟨counter, ⟨"count", by decide⟩, .int⟩
def reset : MethodId := ⟨counter, ⟨"reset", by decide⟩, .void, []⟩
def area : MethodId := ⟨shape, ⟨"area", by decide⟩, .int, []⟩

-- The second definition of the counter and the first field with a value are refused.
def calls : List Request :=
  [.field total .static (some (.int 7)), .method ⟨0⟩ area .abstract, .method ⟨1⟩ reset .static,
    .type counter none .empty .root [shape], .call reset (.emit .returnVoid),
    .type counter (some "Counter.java") .empty .root [], .field count .empty (some (.int 1)),
    .field count .empty none, .type shape none .abstract .root []]

def finished : CompilationUnit where
  classes :=
    [{ id := counter
       flags := .empty
       superclass := .root
       interfaces := [shape]
       sourceFile := none
       staticFields := [⟨total, .static, some (.int 7)⟩]
       instanceFields := [⟨count, .empty, none⟩]
       directMethods := [⟨reset, .static, some ⟨[⟨0, [.returnVoid], none, none, []⟩], 0, 0⟩⟩]
       virtualMethods := [] },
     { id := shape
       flags := .abstract
       superclass := .root
       interfaces := []
       sourceFile := none
       staticFields := []
       instanceFields := []
       directMethods := []
       virtualMethods := [⟨area, .abstract, none⟩] }]

theorem calls_finalize : (Draft.empty.runAll calls).finalize.result = .ok finished := by
  decide

theorem finished_inventory :
    (Draft.empty.runAll calls).finalize.result = .ok finished ∧
      finished.Inventory (Draft.empty.facts calls) :=
  ⟨calls_finalize, Draft.finalize_inventory calls finished calls_finalize⟩

end Counter
end Dalvik
