import Dalvik.Draft.Basic
import Dalvik.Proofs.Indexed
import Dalvik.Proofs.Occurrence

/-! Facts about a unit in the making. The calls on a draft are data, and each that is granted is a fact;
what is known of a type or a method is what the facts say of it, in their order. -/
namespace Dalvik

/-- The calls on a draft as data. A body that is started gets the identity that is given. -/
inductive Request where
  | type (id : Ty) (sourceFile : Option String) (flags : AccessFlags) (superclass : Ty)
    (interfaces : List Ty)
  | field (id : FieldId) (flags : AccessFlags) (value : Option Constant)
  | method (body : BodyId) (id : MethodId) (flags : AccessFlags)
  /-- A call on the body of a method. -/
  | call (method : MethodId) (operation : Operation)
  deriving DecidableEq

inductive Answer where
  | declared
  | started (body : Assembler)
  | reply (reply : Reply)
  /-- There is no such body. -/
  | absent
  deriving DecidableEq

namespace Draft

def run (d : Draft) : Request → Outcome Draft Answer
  | .type id sourceFile flags superclass interfaces =>
    (d.declareType id sourceFile flags superclass interfaces).map fun _ => .declared
  | .field id flags value => (d.declareField id flags value).map fun _ => .declared
  | .method body id flags => (d.declareMethod body id flags).map .started
  | .call method operation =>
    match d.onBody method (·.run operation) with
    | none => .ok d .absent
    | some outcome => outcome.map .reply

def runAll (d : Draft) (history : List Request) : Draft :=
  history.foldl (fun d request => (d.run request).state) d

def storedFlags (method : MethodId) (requested : AccessFlags) : AccessFlags :=
  if method.isInitializer || method.isClassInitializer then
    (storedSynchronization requested).union .constructor
  else storedSynchronization requested

end Draft

structure MethodFact where
  body : BodyId
  id : MethodId
  flags : AccessFlags
  deriving DecidableEq

/-- What a granted call adds to a draft. -/
inductive Fact where
  | type (id : Ty) (definition : TypeDefinition)
  | field (id : FieldId) (entry : FieldEntry)
  | method (declared : MethodFact)
  | call (method : MethodId) (operation : Operation)
  deriving DecidableEq

def Request.fact : Request → Fact
  | .type id sourceFile flags superclass interfaces =>
    .type id { flags, superclass, interfaces, sourceFile }
  | .field id flags value => .field id { flags, value }
  | .method body id flags => .method ⟨body, id, Draft.storedFlags id flags⟩
  | .call m operation => .call m operation

/-- Whether a call counts: a declaration does if it succeeds, a call on a body if there is the body. -/
def Request.isGranted : Request → Except Error Answer → Bool
  | call .., .ok .absent => false
  | call .., _ => true
  | _, .ok _ => true
  | _, .error _ => false

def Draft.fact? (d : Draft) (request : Request) : Option Fact :=
  if request.isGranted (d.run request).result then some request.fact else none

def Draft.facts (d : Draft) : List Request → List Fact
  | [] => []
  | request :: rest => (d.fact? request).toList ++ (d.run request).state.facts rest

namespace Fact

def type? : Fact → Option (Ty × TypeDefinition)
  | type id definition => some (id, definition)
  | _ => none

def field? : Fact → Option (FieldId × FieldEntry)
  | field id entry => some (id, entry)
  | _ => none

def method? : Fact → Option MethodFact
  | method declared => some declared
  | _ => none

def call? : Fact → Option (MethodId × Operation)
  | call m operation => some (m, operation)
  | _ => none

def owner? : Fact → Option Ty
  | type id _ => some id
  | field id _ => some id.owner
  | method declared => some declared.id.owner
  | call .. => none

end Fact

section Views

variable (facts : List Fact)

/-- The types that were mentioned, in the order of their first mention. -/
def mentioned : List Ty := (facts.filterMap Fact.owner?).eraseDups

def typesDeclared : List Ty := (facts.filterMap Fact.type?).map Prod.fst
def fieldsDeclared : List FieldId := (facts.filterMap Fact.field?).map Prod.fst
def methodsDeclared : List MethodId := (facts.filterMap Fact.method?).map MethodFact.id

def definition? (t : Ty) : Option TypeDefinition :=
  (facts.filterMap Fact.type?).lookup t

def fieldsOf (t : Ty) : List (FieldId × FieldEntry) :=
  (facts.filterMap Fact.field?).filter (·.1.owner = t)

def methodsOf (t : Ty) : List MethodFact :=
  (facts.filterMap Fact.method?).filter (·.id.owner = t)

def callsOn (m : MethodId) : List Operation :=
  ((facts.filterMap Fact.call?).filter (·.1 = m)).map Prod.snd

/-- The body of a method: a new one on which all the calls were made. -/
def bodyOf (m : MethodFact) : Assembler :=
  (Assembler.start m.body m.id (m.flags.contains .static)).runAll (callsOn facts m.id)

def entryOf (t : Ty) : TypeEntry where
  definition := definition? facts t
  fields := .ofEntries (fieldsOf facts t)
  methods := .ofEntries ((methodsOf facts t).map fun m => (m.id, ⟨m.flags, bodyOf facts m⟩))

def methodOf? (m : MethodId) : Option MethodFact := (facts.filterMap Fact.method?).find? (·.id = m)

end Views

/-- Facts that hold together: nothing is declared twice, and calls are on bodies that were started. -/
structure Tidy (facts : List Fact) : Prop where
  types : (typesDeclared facts).Nodup
  fields : (fieldsDeclared facts).Nodup
  methods : (methodsDeclared facts).Nodup
  calls : ∀ m operation, .call m operation ∈ facts → m ∈ methodsDeclared facts

section Adding

variable {facts : List Fact}

theorem mentioned_concat {fact : Fact} {t : Ty} (h : fact.owner? = some t) :
    mentioned (facts ++ [fact]) =
      if t ∈ mentioned facts then mentioned facts else mentioned facts ++ [t] := by
  simp only [mentioned, List.filterMap_append, List.filterMap_cons, h, List.filterMap_nil,
    eraseDups_concat, List.mem_eraseDups]

theorem typesDeclared_append (later : List Fact) :
    typesDeclared (facts ++ later) = typesDeclared facts ++ typesDeclared later := by
  simp only [typesDeclared, List.filterMap_append, List.map_append]

theorem fieldsDeclared_append (later : List Fact) :
    fieldsDeclared (facts ++ later) = fieldsDeclared facts ++ fieldsDeclared later := by
  simp only [fieldsDeclared, List.filterMap_append, List.map_append]

theorem methodsDeclared_append (later : List Fact) :
    methodsDeclared (facts ++ later) = methodsDeclared facts ++ methodsDeclared later := by
  simp only [methodsDeclared, List.filterMap_append, List.map_append]

theorem mem_filterMap_view {α : Type} {view : Fact → Option α} (make : α → Fact)
    (h : ∀ fact x, view fact = some x ↔ fact = make x) {x : α} :
    x ∈ facts.filterMap view ↔ make x ∈ facts := by
  simp only [List.mem_filterMap, h, exists_eq_right]

theorem mem_filterMap_type? {x : Ty × TypeDefinition} :
    x ∈ facts.filterMap Fact.type? ↔ .type x.1 x.2 ∈ facts := by
  apply mem_filterMap_view fun x : Ty × TypeDefinition => .type x.1 x.2
  intro fact x
  cases fact <;> simp [Fact.type?, Prod.ext_iff]

theorem mem_filterMap_field? {x : FieldId × FieldEntry} :
    x ∈ facts.filterMap Fact.field? ↔ .field x.1 x.2 ∈ facts := by
  apply mem_filterMap_view fun x : FieldId × FieldEntry => .field x.1 x.2
  intro fact x
  cases fact <;> simp [Fact.field?, Prod.ext_iff]

theorem mem_filterMap_method? {x : MethodFact} :
    x ∈ facts.filterMap Fact.method? ↔ .method x ∈ facts := by
  apply mem_filterMap_view Fact.method
  intro fact x
  cases fact <;> simp [Fact.method?]

theorem mem_filterMap_call? {x : MethodId × Operation} :
    x ∈ facts.filterMap Fact.call? ↔ .call x.1 x.2 ∈ facts := by
  apply mem_filterMap_view fun x : MethodId × Operation => .call x.1 x.2
  intro fact x
  cases fact <;> simp [Fact.call?, Prod.ext_iff]

theorem mem_typesDeclared {t : Ty} :
    t ∈ typesDeclared facts ↔ ∃ definition, .type t definition ∈ facts := by
  rw [typesDeclared, List.mem_map]
  constructor
  · rintro ⟨⟨_, definition⟩, h, rfl⟩
    exact ⟨definition, mem_filterMap_type?.mp h⟩
  · rintro ⟨definition, h⟩
    exact ⟨(t, definition), mem_filterMap_type?.mpr h, rfl⟩

theorem mem_fieldsOf {x : FieldId × FieldEntry} {t : Ty} :
    x ∈ fieldsOf facts t ↔ .field x.1 x.2 ∈ facts ∧ x.1.owner = t := by
  rw [fieldsOf, List.mem_filter, mem_filterMap_field?, decide_eq_true_eq]

theorem mem_methodsOf {x : MethodFact} {t : Ty} :
    x ∈ methodsOf facts t ↔ .method x ∈ facts ∧ x.id.owner = t := by
  rw [methodsOf, List.mem_filter, mem_filterMap_method?, decide_eq_true_eq]

theorem map_fieldsOf (t : Ty) :
    (fieldsOf facts t).map Prod.fst = (fieldsDeclared facts).filter (·.owner = t) := by
  rw [fieldsDeclared, List.filter_map]
  rfl

theorem map_methodsOf (t : Ty) :
    (methodsOf facts t).map MethodFact.id = (methodsDeclared facts).filter (·.owner = t) := by
  rw [methodsDeclared, List.filter_map]
  rfl

theorem mem_mentioned {t : Ty} : t ∈ mentioned facts ↔ ∃ fact ∈ facts, fact.owner? = some t := by
  simp [mentioned]

theorem mentioned_of_mem_typesDeclared {t : Ty} (h : t ∈ typesDeclared facts) :
    t ∈ mentioned facts := by
  obtain ⟨definition, hmem⟩ := mem_typesDeclared.mp h
  exact mem_mentioned.mpr ⟨_, hmem, rfl⟩

theorem mentioned_of_mem_fieldsDeclared {f : FieldId} (h : f ∈ fieldsDeclared facts) :
    f.owner ∈ mentioned facts := by
  obtain ⟨x, hx, rfl⟩ := List.mem_map.mp h
  exact mem_mentioned.mpr ⟨_, mem_filterMap_field?.mp hx, rfl⟩

theorem mentioned_of_mem_methodsDeclared {m : MethodId} (h : m ∈ methodsDeclared facts) :
    m.owner ∈ mentioned facts := by
  obtain ⟨x, hx, rfl⟩ := List.mem_map.mp h
  exact mem_mentioned.mpr ⟨_, mem_filterMap_method?.mp hx, rfl⟩

theorem definition?_eq_none {t : Ty} : definition? facts t = none ↔ t ∉ typesDeclared facts := by
  simp only [definition?, typesDeclared, List.lookup_eq_none_iff, List.mem_map, not_exists, not_and,
    bne_iff_ne, ne_eq]
  exact ⟨fun h x hx same => h x hx same.symm, fun h x hx same => h x hx same.symm⟩

theorem entryOf_of_notMem {t : Ty} (h : t ∉ mentioned facts) : entryOf facts t = {} := by
  simp only [mem_mentioned, not_exists, not_and] at h
  have hdefinition : definition? facts t = none := by
    rw [definition?_eq_none, mem_typesDeclared]
    exact fun ⟨_, hmem⟩ => h _ hmem rfl
  have hfields : fieldsOf facts t = [] := by
    rw [List.eq_nil_iff_forall_not_mem]
    intro x hx
    obtain ⟨hmem, howner⟩ := mem_fieldsOf.mp hx
    exact h _ hmem (congrArg some howner)
  have hmethods : methodsOf facts t = [] := by
    rw [List.eq_nil_iff_forall_not_mem]
    intro x hx
    obtain ⟨hmem, howner⟩ := mem_methodsOf.mp hx
    exact h _ hmem (congrArg some howner)
  rw [entryOf, hdefinition, hfields, hmethods]
  rfl

@[simp] theorem Assembler.runAll_nil (a : Assembler) : a.runAll [] = a := rfl

theorem bodyOf_append (later : List Fact) (m : MethodFact) :
    bodyOf (facts ++ later) m = (bodyOf facts m).runAll (callsOn later m.id) := by
  simp [bodyOf, callsOn, Assembler.runAll]

theorem entryOf_append (later : List Fact) (t : Ty) : entryOf (facts ++ later) t =
    { definition := (definition? facts t).or (definition? later t)
      fields := .ofEntries (fieldsOf facts t ++ fieldsOf later t)
      methods := .ofEntries ((methodsOf facts t ++ methodsOf later t).map fun m =>
        (m.id, ⟨m.flags, (bodyOf facts m).runAll (callsOn later m.id)⟩)) } := by
  simp only [entryOf, definition?, fieldsOf, methodsOf, bodyOf_append, List.filterMap_append,
    List.filter_append, List.lookup_append]

theorem entryOf_concat_type {id : Ty} (definition : TypeDefinition) (new : id ∉ typesDeclared facts)
    (t : Ty) : entryOf (facts ++ [.type id definition]) t =
      if t = id then { entryOf facts t with definition := some definition } else entryOf facts t := by
  have hlater : definition? [.type id definition] t = if t = id then some definition else none := by
    by_cases h : t = id
    · simp [definition?, Fact.type?, h]
    · simp [definition?, Fact.type?, h, List.lookup_cons, beq_false_of_ne h]
  have hfields : fieldsOf [.type id definition] t = [] := rfl
  have hmethods : methodsOf [.type id definition] t = [] := rfl
  have hcalls (m : MethodId) : callsOn [.type id definition] m = [] := rfl
  rw [← definition?_eq_none] at new
  simp only [entryOf_append, hlater, hfields, hmethods, hcalls, List.append_nil,
    Assembler.runAll_nil]
  by_cases h : t = id
  · simp [h, new, entryOf]
  · simp [h, entryOf]

theorem entryOf_concat_field (id : FieldId) (entry : FieldEntry) (t : Ty) :
    entryOf (facts ++ [.field id entry]) t =
      if t = id.owner then
        { entryOf facts t with fields := (entryOf facts t).fields.push id entry }
      else entryOf facts t := by
  have hfields : fieldsOf [.field id entry] t = if t = id.owner then [(id, entry)] else [] := by
    by_cases h : t = id.owner
    · simp [fieldsOf, Fact.field?, h]
    · simp [fieldsOf, Fact.field?, h, Ne.symm h]
  have hlater : definition? [.field id entry] t = none := rfl
  have hmethods : methodsOf [.field id entry] t = [] := rfl
  have hcalls (m : MethodId) : callsOn [.field id entry] m = [] := rfl
  simp only [entryOf_append, hlater, hfields, hmethods, hcalls, List.append_nil,
    Assembler.runAll_nil]
  by_cases h : t = id.owner
  · simp [h, entryOf, Registry.push_ofEntries]
  · simp [h, entryOf]

theorem entryOf_concat_method (x : MethodFact) (unused : callsOn facts x.id = []) (t : Ty) :
    entryOf (facts ++ [.method x]) t =
      if t = x.id.owner then
        { entryOf facts t with
          methods := (entryOf facts t).methods.push x.id
            ⟨x.flags, .start x.body x.id (x.flags.contains .static)⟩ }
      else entryOf facts t := by
  have hmethods : methodsOf [.method x] t = if t = x.id.owner then [x] else [] := by
    by_cases h : t = x.id.owner
    · simp [methodsOf, Fact.method?, h]
    · simp [methodsOf, Fact.method?, h, Ne.symm h]
  have hlater : definition? [.method x] t = none := rfl
  have hfields : fieldsOf [.method x] t = [] := rfl
  have hcalls (m : MethodId) : callsOn [.method x] m = [] := rfl
  simp only [entryOf_append, hlater, hfields, hmethods, hcalls, List.append_nil,
    Assembler.runAll_nil]
  by_cases h : t = x.id.owner
  · simp [h, entryOf, Registry.push_ofEntries, bodyOf, unused]
  · simp [h, entryOf]

theorem contains_methods (m : MethodId) :
    (entryOf facts m.owner).methods.contains m = decide (m ∈ methodsDeclared facts) := by
  rw [entryOf, Registry.contains_ofEntries, decide_eq_decide]
  simp only [methodsOf, methodsDeclared, List.map_map, List.mem_map, List.mem_filter,
    Function.comp_apply, decide_eq_true_eq]
  exact ⟨fun ⟨x, ⟨hx, _⟩, h⟩ => ⟨x, hx, h⟩, fun ⟨x, hx, h⟩ => ⟨x, ⟨hx, h ▸ rfl⟩, h⟩⟩

theorem contains_fields (f : FieldId) :
    (entryOf facts f.owner).fields.contains f = decide (f ∈ fieldsDeclared facts) := by
  rw [entryOf, Registry.contains_ofEntries, decide_eq_decide]
  simp only [fieldsOf, fieldsDeclared, List.mem_map, List.mem_filter, decide_eq_true_eq]
  exact ⟨fun ⟨x, ⟨hx, _⟩, h⟩ => ⟨x, hx, h⟩, fun ⟨x, hx, h⟩ => ⟨x, ⟨hx, h ▸ rfl⟩, h⟩⟩

theorem methodOf?_eq_none {m : MethodId} : methodOf? facts m = none ↔ m ∉ methodsDeclared facts := by
  simp only [methodOf?, methodsDeclared, List.find?_eq_none, List.mem_map, decide_eq_true_eq,
    not_exists, not_and]

theorem Tidy.definition?_eq_some (tidy : Tidy facts) {t : Ty} {definition : TypeDefinition} :
    definition? facts t = some definition ↔ .type t definition ∈ facts := by
  have hmem {found : TypeDefinition} (h : definition? facts t = some found) :
      (t, found) ∈ facts.filterMap Fact.type? := by
    obtain ⟨before, after, hsplit, -⟩ := List.lookup_eq_some_iff.mp h
    rw [hsplit]
    exact List.mem_append_right before List.mem_cons_self
  constructor
  · exact fun h => mem_filterMap_type?.mp (hmem h)
  · intro h
    cases hfound : definition? facts t with
    | none => exact absurd (mem_typesDeclared.mpr ⟨definition, h⟩) (definition?_eq_none.mp hfound)
    | some found =>
      have hdeclared : (t, definition) ∈ facts.filterMap Fact.type? := mem_filterMap_type?.mpr h
      have hpair := List.inj_on_of_nodup_map tidy.types (hmem hfound) hdeclared rfl
      rw [(Prod.mk.inj hpair).2]

theorem Tidy.methodOf?_eq_some (tidy : Tidy facts) {x : MethodFact} :
    methodOf? facts x.id = some x ↔ .method x ∈ facts := by
  rw [← mem_filterMap_method?]
  exact (find?_key_eq_some tidy.methods).trans (and_iff_left rfl)

theorem Tidy.nodup_methods (tidy : Tidy facts) (t : Ty) :
    (((methodsOf facts t).map fun m => (m.id, MethodEntry.mk m.flags (bodyOf facts m))).map
      Prod.fst).Nodup := by
  rw [List.map_map]
  change ((methodsOf facts t).map MethodFact.id).Nodup
  rw [map_methodsOf]
  exact tidy.methods.filter _

theorem Tidy.coherent_fields (tidy : Tidy facts) (t : Ty) : (entryOf facts t).fields.Coherent := by
  apply Registry.coherent_ofEntries
  rw [map_fieldsOf]
  exact tidy.fields.filter _

theorem Tidy.coherent_methods (tidy : Tidy facts) (t : Ty) : (entryOf facts t).methods.Coherent :=
  Registry.coherent_ofEntries (tidy.nodup_methods t)

theorem Tidy.find?_methods (tidy : Tidy facts) (m : MethodId) :
    (entryOf facts m.owner).methods.find? m =
      (methodOf? facts m).map fun x => ⟨x.flags, bodyOf facts x⟩ := by
  have hfound := (tidy.coherent_methods m.owner).found m
  cases hx : methodOf? facts m with
  | none =>
    rw [Option.map_none, Option.eq_none_iff_forall_ne_some]
    intro stored hstored
    obtain ⟨x, hmem, hsame⟩ := List.mem_map.mp ((hfound stored).mp hstored)
    obtain ⟨rfl, -⟩ := Prod.mk.inj hsame
    apply methodOf?_eq_none.mp hx
    exact List.mem_map_of_mem (mem_filterMap_method?.mpr (mem_methodsOf.mp hmem).1)
  | some x =>
    obtain rfl : x.id = m := by simpa using List.find?_some hx
    rw [Option.map_some, hfound]
    exact List.mem_map_of_mem (mem_methodsOf.mpr ⟨tidy.methodOf?_eq_some.mp hx, rfl⟩)

theorem Tidy.entryOf_concat_call (tidy : Tidy facts) {x : MethodFact} (hx : .method x ∈ facts)
    (operation : Operation) (t : Ty) :
    entryOf (facts ++ [.call x.id operation]) t =
      if t = x.id.owner then
        { entryOf facts t with
          methods := (entryOf facts t).methods.put x.id
            ⟨x.flags, ((bodyOf facts x).run operation).state⟩ }
      else entryOf facts t := by
  have hlater : definition? [.call x.id operation] t = none := rfl
  have hfields : fieldsOf [.call x.id operation] t = [] := rfl
  have hmethods : methodsOf [.call x.id operation] t = [] := rfl
  have hcalls (m : MethodId) :
      callsOn [.call x.id operation] m = if m = x.id then [operation] else [] := by
    by_cases h : m = x.id
    · simp [callsOn, Fact.call?, h]
    · simp [callsOn, Fact.call?, h, Ne.symm h]
  simp only [entryOf_append, hlater, hfields, hmethods, hcalls, List.append_nil, Option.or_none]
  by_cases ht : t = x.id.owner
  · subst ht
    have hput := Registry.put_ofEntries (tidy.nodup_methods x.id.owner) x.id
      ⟨x.flags, ((bodyOf facts x).run operation).state⟩
    simp only [if_true, entryOf, hput, List.map_map]
    congr 2
    apply List.map_congr_left
    intro y hy
    by_cases h : y.id = x.id
    · have hyx : y = x := by
        have hfind := tidy.methodOf?_eq_some.mpr (mem_methodsOf.mp hy).1
        rw [h, tidy.methodOf?_eq_some.mpr hx] at hfind
        exact (Option.some.inj hfind).symm
      simp [hyx, Assembler.runAll]
    · simp [h]
  · simp only [ht, if_false, entryOf]
    congr 2
    apply List.map_congr_left
    intro y hy
    have h : y.id ≠ x.id := fun same => ht (same ▸ (mem_methodsOf.mp hy).2.symm)
    simp [h]

theorem Tidy.callsOn_eq_nil (tidy : Tidy facts) {m : MethodId} (h : m ∉ methodsDeclared facts) :
    callsOn facts m = [] := by
  rw [callsOn, List.map_eq_nil_iff, List.filter_eq_nil_iff]
  intro x hx same
  have hcall := mem_filterMap_call?.mp hx
  rw [of_decide_eq_true same] at hcall
  exact h (tidy.calls m x.2 hcall)

end Adding

namespace Request

def check : Request → Except Error Unit
  | .type id _ flags superclass interfaces => Draft.checkType id flags superclass interfaces
  | .field id flags value => Draft.checkField id flags value
  | .method _ id flags => (Draft.methodFlags id flags).map fun _ => ()
  | .call .. => .ok ()

/-- What a request needs of the facts: declarations are new, and calls are on a body that is there. -/
def Follows (facts : List Fact) : Request → Prop
  | .type id .. => id ∉ typesDeclared facts
  | .field id .. => id ∉ fieldsDeclared facts
  | .method _ id _ => id ∉ methodsDeclared facts
  | .call m _ => m ∈ methodsDeclared facts

def refusal : Request → Except Error Answer
  | .type id .. => .error (.duplicateType id)
  | .field id .. => .error (.duplicateField id)
  | .method _ id _ => .error (.duplicateMethod id)
  | .call .. => .ok .absent

def answer (facts : List Fact) : Request → Except Error Answer
  | .type .. => .ok .declared
  | .field .. => .ok .declared
  | .method body id flags =>
    .ok (.started (.start body id ((Draft.storedFlags id flags).contains .static)))
  | .call m operation =>
    match methodOf? facts m with
    | none => .ok .absent
    | some x => (((bodyOf facts x).run operation).map Answer.reply).result

end Request

theorem Tidy.concat {facts : List Fact} (tidy : Tidy facts) {request : Request}
    (follows : request.Follows facts) : Tidy (facts ++ [request.fact]) := by
  have added {α : Type} {xs : List α} {x : α} (h : xs.Nodup) (hx : x ∉ xs) : (xs ++ [x]).Nodup :=
    List.nodup_append_comm.mpr (List.nodup_cons.mpr ⟨hx, h⟩)
  have kept {α : Type} {xs : List α} (h : xs.Nodup) : (xs ++ []).Nodup := by rwa [List.append_nil]
  refine ⟨?_, ?_, ?_, ?_⟩
  · rw [typesDeclared_append]
    cases request with
    | type => exact added tidy.types follows
    | _ => exact kept tidy.types
  · rw [fieldsDeclared_append]
    cases request with
    | field => exact added tidy.fields follows
    | _ => exact kept tidy.fields
  · rw [methodsDeclared_append]
    cases request with
    | method => exact added tidy.methods follows
    | _ => exact kept tidy.methods
  · intro m operation h
    rw [methodsDeclared_append, List.mem_append]
    obtain h | h := List.mem_append.mp h
    · exact .inl (tidy.calls m operation h)
    · cases request <;> cases List.mem_singleton.mp h
      exact .inl follows

end Dalvik
