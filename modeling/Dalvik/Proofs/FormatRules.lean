import Dalvik.Proofs.Coherence
import Dalvik.Proofs.Finished
import Dalvik.Proofs.Tiling

/-! The rules of the format. Declarations are checked one by one and flags are rewritten on the way in;
so in a finished unit every class, field and method has the flags that it may have, and the flags, the
groups and the bodies of methods agree with one another. -/
namespace Dalvik

theorem Ty.className?_eq_some {t : Ty} {name : ClassName} :
    t.className? = some name ↔ t = .object name := by
  rcases t with _ | _ | name | _ <;> simp [className?, object]

namespace Draft

section Stored

open AccessFlags

variable {m : MethodId} {requested flags f : AccessFlags}

theorem storedSynchronization_not_synchronized :
    (storedSynchronization requested).contains .synchronized = false := by
  unfold storedSynchronization
  split
  · rw [union_contains_of_disjoint (by decide)]
    exact diff_contains_self single_synchronized
  · rename_i h
    simpa using h

theorem storedSynchronization_declared :
    (storedSynchronization requested).contains .declaredSynchronized = true ↔
      requested.contains .synchronized = true ∨ requested.contains .declaredSynchronized = true := by
  unfold storedSynchronization
  split
  · rename_i h
    simp [h, union_contains_right]
  · rename_i h
    simp [h]

theorem storedSynchronization_contains (synchronized : f.intersects .synchronized = false)
    (declared : f.intersects .declaredSynchronized = false) :
    (storedSynchronization requested).contains f = requested.contains f := by
  unfold storedSynchronization
  split
  · rw [union_contains_of_disjoint declared, diff_contains_of_disjoint synchronized]
  · rfl

theorem storedFlags_contains (h : (m.isInitializer || m.isClassInitializer) = true →
    f.intersects .constructor = false) :
    (storedFlags m requested).contains f = (storedSynchronization requested).contains f := by
  unfold storedFlags
  split
  · rename_i hinitializer
    exact union_contains_of_disjoint (h hinitializer)
  · rfl

theorem storedFlags_constructor (h : (m.isInitializer || m.isClassInitializer) = true) :
    (storedFlags m requested).contains .constructor = true := by
  rw [storedFlags, if_pos h]
  exact union_contains_right

theorem storedSynchronization_within :
    forMethods.contains (storedSynchronization requested) = true ↔
      forMethods.contains requested = true := by
  unfold storedSynchronization
  split
  · have hsynchronized : forMethods.contains .synchronized = true := by decide
    have hdeclared : forMethods.contains .declaredSynchronized = true := by decide
    rw [contains_union, and_iff_left hdeclared]
    rw [contains_iff] at hsynchronized ⊢
    rw [contains_iff]
    refine forall_congr' fun k => ?_
    rw [has_diff]
    cases h : AccessFlags.synchronized.has k with
    | false => simp
    | true => simp [hsynchronized k h]
  · rfl

theorem storedFlags_within (h : forMethods.contains requested = true) :
    forMethods.contains (storedFlags m requested) = true := by
  have hwithin := storedSynchronization_within.mpr h
  -- the flag that an initializer gets is allowed too
  unfold storedFlags
  split
  · exact contains_union.mpr ⟨hwithin, by decide⟩
  · exact hwithin

theorem checkFlags_eq_ok {declared : Declared} {allowed : AccessFlags} {u : Unit} :
    checkFlags declared flags allowed = .ok u ↔ allowed.contains flags = true := by
  simp only [checkFlags, ← isEmpty_diff]
  split <;> simp_all

theorem methodFlags_eq_ok :
    (∃ flags, methodFlags m requested = .ok flags) ↔
      forMethods.contains requested = true ∧
        (m.isClassInitializer = true → requested.contains .static = true) := by
  have hstatic : (storedSynchronization requested).contains .static = requested.contains .static :=
    storedSynchronization_contains (by decide) (by decide)
  simp only [methodFlags, bind_eq_ok, checkFlags_eq_ok, storedSynchronization_within, hstatic]
  cases m.isClassInitializer <;> cases requested.contains .static <;>
    simp [throw, throwThe, MonadExceptOf.throw]

end Stored

theorem checkClass_eq_ok {t : Ty} {u : Unit} : checkClass t = .ok u ↔ ∃ name, t = .object name := by
  simp only [← Ty.className?_eq_some, ← Option.isSome_iff_exists, checkClass]
  split <;> simp_all

end Draft

/-- The rules for a declaration by itself: classes extend classes, flags are of the right kind, initial
values are for static fields and of their type, and a class initializer is static. -/
def Request.InOrder : Request → Prop
  | .type id _ flags superclass interfaces =>
    (∀ t ∈ id :: superclass :: interfaces, ∃ name, t = .object name) ∧
      AccessFlags.forClasses.contains flags = true
  | .field id flags value =>
    (flags.contains .synchronized = false ∧ AccessFlags.forFields.contains flags = true) ∧
      ∀ c, value = some c → flags.contains .static = true ∧ c.Assignable id.type
  | .method _ id flags =>
    AccessFlags.forMethods.contains flags = true ∧
      (id.isClassInitializer = true → flags.contains .static = true)
  | .call .. => True

structure TypeDefinition.Lawful (definition : TypeDefinition) : Prop where
  superclass : ∃ name, definition.superclass = .object name
  interfaces : ∀ t ∈ definition.interfaces, ∃ name, t = .object name
  flags : AccessFlags.forClasses.contains definition.flags = true

structure FieldDef.Lawful (f : FieldDef) : Prop where
  flags : AccessFlags.forFields.contains f.flags = true
  value : ∀ c, f.value = some c → f.flags.contains .static = true ∧ c.Assignable f.id.type

namespace Draft

theorem checkType_eq_ok {id superclass : Ty} {flags : AccessFlags} {interfaces : List Ty} :
    checkType id flags superclass interfaces = .ok () ↔
      (∀ t ∈ id :: superclass :: interfaces, ∃ name, t = .object name) ∧
        AccessFlags.forClasses.contains flags = true := by
  simp only [checkType, bind_eq_ok, forM_eq_ok, checkClass_eq_ok, checkFlags_eq_ok,
    List.forall_mem_cons, exists_const, and_assoc]

theorem checkField_eq_ok {id : FieldId} {flags : AccessFlags} {value : Option Constant} :
    checkField id flags value = .ok () ↔
      (flags.contains .synchronized = false ∧ AccessFlags.forFields.contains flags = true) ∧
        ∀ c, value = some c → flags.contains .static = true ∧ c.Assignable id.type := by
  unfold checkField
  cases hsynchronized : flags.contains .synchronized with
  | true => simp [throw, throwThe, MonadExceptOf.throw]
  | false =>
    cases value with
    | none => simp [checkFlags_eq_ok]
    | some c =>
      cases hstatic : flags.contains .static with
      | false => simp [throw, throwThe, MonadExceptOf.throw]
      | true =>
        cases hfits : c.fits id.type with
        | false => simp [throw, throwThe, MonadExceptOf.throw, hfits, ← Constant.fits_iff]
        | true => simp [checkFlags_eq_ok, hfits, ← Constant.fits_iff]

theorem check_eq_ok {request : Request} : request.check = .ok () ↔ request.InOrder := by
  cases request with
  | type id sourceFile flags superclass interfaces => exact checkType_eq_ok
  | field id flags value => exact checkField_eq_ok
  | method body id flags =>
    refine Iff.trans ?_ methodFlags_eq_ok
    cases h : methodFlags id flags <;> simp [Request.check, h, Except.map]
  | call m operation => exact ⟨fun _ => trivial, fun _ => rfl⟩

theorem inOrder_of_mem {history : List Request} {fact : Fact} (h : fact ∈ empty.facts history) :
    ∃ request : Request, request.InOrder ∧ request.fact = fact := by
  obtain ⟨before, request, after, -, hfact⟩ := mem_facts.mp h
  obtain ⟨holds, tidy⟩ := empty_holds before
  obtain ⟨⟨checked, -⟩, hsame⟩ := (holds.fact?_eq_some tidy).mp hfact
  exact ⟨request, check_eq_ok.mp checked, hsame⟩

theorem lawful_of_type {history : List Request} {t : Ty} {definition : TypeDefinition}
    (h : .type t definition ∈ empty.facts history) :
    (∃ name, t = .object name) ∧ definition.Lawful := by
  obtain ⟨request, inOrder, hsame⟩ := inOrder_of_mem h
  cases request with
  | type id sourceFile flags superclass interfaces =>
    obtain ⟨rfl, rfl⟩ := Fact.type.inj hsame
    obtain ⟨classes, within⟩ := inOrder
    rw [List.forall_mem_cons, List.forall_mem_cons] at classes
    exact ⟨classes.1, classes.2.1, classes.2.2, within⟩
  | _ => cases hsame

theorem lawful_of_field {history : List Request} {id : FieldId} {entry : FieldEntry}
    (h : .field id entry ∈ empty.facts history) :
    FieldDef.Lawful ⟨id, entry.flags, entry.value⟩ := by
  obtain ⟨request, inOrder, hsame⟩ := inOrder_of_mem h
  cases request with
  | field id flags value =>
    obtain ⟨rfl, rfl⟩ := Fact.field.inj hsame
    exact ⟨inOrder.1.2, inOrder.2⟩
  | _ => cases hsame

end Draft

theorem Assembler.finish_parameterRegisters {id : BodyId} {method : MethodId} {isStatic : Bool}
    {history : List Operation} {body : MethodBody} (howner : method.owner.isReference = true)
    (h : ((start id method isStatic).runAll history).finish.result = .ok body) :
    body.parameterRegisters.toNat = method.parameterWidth (!isStatic) := by
  obtain ⟨steps, done⟩ := finish_steps h
  obtain ⟨frame, hframe, -, hparameters⟩ := done.frame
  have same := steps.sameMethod
  have numbered := steps.numbered (start_numbered id method isStatic)
  have tiled := numbered.tiled hframe (by rw [same.method]; exact howner)
  rw [same.method, same.isStatic] at tiled
  rw [hparameters, tiled.parameterSize]
  exact tiled.parameterWidth

/-- A method obeys the format, given the flags that it was requested with. -/
structure MethodDef.Lawful (m : MethodDef) (requested : AccessFlags) : Prop where
  flags : AccessFlags.forMethods.contains m.flags = true
  unsynchronized : m.flags.contains .synchronized = false
  synchronized : m.flags.contains .declaredSynchronized = true ↔
    requested.contains .synchronized = true ∨ requested.contains .declaredSynchronized = true
  initializer : (m.id.isInitializer || m.id.isClassInitializer) = true →
    m.flags.contains .constructor = true
  classInitializer : m.id.isClassInitializer = true → m.flags.contains .static = true
  /-- All other flags are as requested. -/
  others : ∀ f : AccessFlags, f.intersects .synchronized = false →
    f.intersects .declaredSynchronized = false →
    ((m.id.isInitializer || m.id.isClassInitializer) = true → f.intersects .constructor = false) →
    m.flags.contains f = requested.contains f
  code : m.body.isSome = true ↔
    m.flags.contains .abstract = false ∧ m.flags.contains .native = false
  arguments : ∀ body, m.body = some body →
    body.parameterRegisters.toNat = m.id.parameterWidth (!m.flags.contains .static)

theorem MethodDef.Shows.body_cases {m : MethodDef} {facts : List Fact} {x : MethodFact}
    (shows : m.Shows facts x) :
    (x.flags.contains .abstract = true ∨ x.flags.contains .native = true) ∧ m.body = none ∨
      (x.flags.contains .abstract = false ∧ x.flags.contains .native = false) ∧
        ∃ body, m.body = some body ∧ (bodyOf facts x).finish.result = .ok body := by
  by_cases h : x.flags.contains .abstract = true ∨ x.flags.contains .native = true
  · exact .inl ⟨h, shows.bodiless h⟩
  · rw [not_or, Bool.not_eq_true, Bool.not_eq_true] at h
    exact .inr ⟨h, shows.code h.1 h.2⟩

theorem MethodDef.Shows.lawful {m : MethodDef} {facts : List Fact} {x : MethodFact}
    {requested flags : AccessFlags} (shows : m.Shows facts x)
    (hflags : x.flags = Draft.storedFlags m.id requested)
    (checked : Draft.methodFlags m.id requested = .ok flags)
    (howner : m.id.owner.isReference = true) : m.Lawful requested := by
  have hm : m.flags = Draft.storedFlags m.id requested := shows.flags.trans hflags
  obtain ⟨within, static⟩ := Draft.methodFlags_eq_ok.mp ⟨flags, checked⟩
  refine
    { flags := by rw [hm]; exact Draft.storedFlags_within within
      unsynchronized := by
        rw [hm, Draft.storedFlags_contains fun _ => by decide]
        exact Draft.storedSynchronization_not_synchronized
      synchronized := by
        rw [hm, Draft.storedFlags_contains fun _ => by decide]
        exact Draft.storedSynchronization_declared
      initializer := fun h => by rw [hm]; exact Draft.storedFlags_constructor h
      classInitializer := fun h => by
        rw [hm, Draft.storedFlags_contains fun _ => by decide,
          Draft.storedSynchronization_contains (by decide) (by decide)]
        exact static h
      others := fun f synchronized declared constructor => by
        rw [hm, Draft.storedFlags_contains constructor]
        exact Draft.storedSynchronization_contains synchronized declared
      code := ?_
      arguments := ?_ }
  · rw [shows.flags]
    obtain ⟨h, hnone⟩ | ⟨h, finished, hfinished, -⟩ := shows.body_cases
    · rw [hnone]
      obtain h | h := h <;> simp [h]
    · simp [hfinished, h]
  · intro body hbody
    obtain ⟨-, hnone⟩ | ⟨-, finished, hfinished, hfinish⟩ := shows.body_cases
    · cases hbody.symm.trans hnone
    · obtain rfl := Option.some.inj (hbody.symm.trans hfinished)
      rw [shows.flags, shows.id]
      exact Assembler.finish_parameterRegisters (shows.id ▸ howner) hfinish

/-- A class obeys the format, and so do its fields. Initializers are among the direct methods. -/
structure ClassDef.Lawful (c : ClassDef) : Prop where
  id : ∃ name, c.id = .object name
  definition : TypeDefinition.Lawful ⟨c.flags, c.superclass, c.interfaces, c.sourceFile⟩
  fields : ∀ f ∈ c.fields, f.Lawful
  direct : ∀ m ∈ c.methods, (m.id.isInitializer || m.id.isClassInitializer) = true →
    m ∈ c.directMethods

namespace Draft

def Requests (history : List Request) (m : MethodId) (requested : AccessFlags) : Prop :=
  ∃ body after, Declares history m requested body after

variable {history : List Request} {m : MethodId} {requested : AccessFlags}

theorem Requests.checked (h : Requests history m requested) :
    ∃ flags, methodFlags m requested = .ok flags := by
  obtain ⟨body, after, declares⟩ := h
  obtain ⟨before, id, -, ⟨checked, -⟩, -⟩ := declares_iff.mp declares
  exact methodFlags_eq_ok.mpr (check_eq_ok.mp checked)

theorem Requests.flags (h : Requests history m requested) {x : MethodFact}
    (hx : .method x ∈ empty.facts history) (hid : x.id = m) :
    x.flags = storedFlags m requested := by
  have tidy := (empty_holds history).2
  obtain ⟨body, after, declares⟩ := h
  obtain ⟨id, -, hdeclared⟩ := declares.fact
  have hfound := tidy.methodOf?_eq_some.mpr hx
  rw [hid, tidy.methodOf?_eq_some.mpr hdeclared] at hfound
  rw [← Option.some.inj hfound]

end Draft

namespace ClassDef.Shows

variable {c : ClassDef} {facts : List Fact}

theorem exists_field (shows : c.Shows facts) {f : FieldDef} (hf : f ∈ c.fields) :
    ∃ x ∈ fieldsOf facts c.id, f = ⟨x.1, x.2.flags, x.2.value⟩ := by
  rw [fields, shows.staticFields, shows.instanceFields, ← List.map_append, List.mem_map] at hf
  obtain ⟨x, hx, rfl⟩ := hf
  obtain hx | hx := List.mem_append.mp hx <;> exact ⟨x, List.mem_of_mem_filter hx, rfl⟩

theorem exists_method (shows : c.Shows facts) {m : MethodDef} (hm : m ∈ c.methods) :
    ∃ x ∈ methodsOf facts c.id, m.Shows facts x := by
  obtain hm | hm := List.mem_append.mp hm
  · obtain ⟨x, hx, h⟩ := exists_of_mem_right shows.directMethods hm
    exact ⟨x, List.mem_of_mem_filter hx, h⟩
  · obtain ⟨x, hx, h⟩ := exists_of_mem_right shows.virtualMethods hm
    exact ⟨x, List.mem_of_mem_filter hx, h⟩

theorem mem_directMethods (shows : c.Shows facts) {m : MethodDef} (hm : m ∈ c.methods)
    (initializer : m.flags.contains .constructor = true) : m ∈ c.directMethods := by
  refine (List.mem_append.mp hm).resolve_right fun hvirtual => ?_
  obtain ⟨x, hx, h⟩ := exists_of_mem_right shows.virtualMethods hvirtual
  have hflags := (List.mem_filter.mp hx).2
  simp [MethodFact.isDirect, ← h.flags, initializer] at hflags

end ClassDef.Shows

namespace Draft

/-- Whatever calls were made on a new draft, if it finishes, then the unit obeys the format: each class
with its fields, and each method as it was requested by the one call that declared it. -/
theorem finalize_lawful (history : List Request) (unit : CompilationUnit)
    (h : (empty.runAll history).finalize.result = .ok unit) :
    ∀ c ∈ unit.classes, c.Lawful ∧ ∀ m ∈ c.methods,
      (∃ requested, Requests history m.id requested) ∧
        ∀ requested, Requests history m.id requested → m.Lawful requested := by
  obtain ⟨holds, tidy⟩ := empty_holds history
  obtain ⟨-, classes⟩ := holds.finalize_eq_ok.mp h
  intro c hc
  obtain ⟨t, -, hof⟩ := exists_of_mem_right classes hc
  have shows := hof.shows.2
  obtain ⟨hid, hdefinition⟩ := lawful_of_type (tidy.definition?_eq_some.mp shows.definition)
  have requests {m : MethodDef} (hm : m ∈ c.methods) :
      ∃ requested, Requests history m.id requested := by
    obtain ⟨x, hx, hshows⟩ := shows.exists_method hm
    obtain ⟨requested, after, -, declares⟩ := declares_of_mem (mem_methodsOf.mp hx).1
    exact ⟨requested, _, after, hshows.id ▸ declares⟩
  have lawful {m : MethodDef} (hm : m ∈ c.methods) {requested : AccessFlags}
      (hrequested : Requests history m.id requested) : m.Lawful requested := by
    obtain ⟨x, hx, hshows⟩ := shows.exists_method hm
    obtain ⟨hfact, howner⟩ := mem_methodsOf.mp hx
    obtain ⟨flags, checked⟩ := hrequested.checked
    obtain ⟨name, hname⟩ := hid
    have hreference : m.id.owner.isReference = true := by
      rw [hshows.id, howner, hname]
      rfl
    exact hshows.lawful (hrequested.flags hfact hshows.id.symm) checked hreference
  refine ⟨⟨hid, hdefinition, fun f hf => ?_, fun m hm hinitializer => ?_⟩,
    fun m hm => ⟨requests hm, fun requested => lawful hm⟩⟩
  · obtain ⟨x, hx, rfl⟩ := shows.exists_field hf
    exact lawful_of_field (mem_fieldsOf.mp hx).1
  · obtain ⟨requested, hrequested⟩ := requests hm
    exact shows.mem_directMethods hm ((lawful hm hrequested).initializer hinitializer)

end Draft

/-! A class with all kinds of members. One of its methods is synchronized, and the first declaration of its
class initializer is refused, since it is not static. -/
namespace Account

def account : Ty := .object ⟨"Account", by decide⟩

def balance : FieldId := ⟨account, ⟨"balance", by decide⟩, .long⟩
def owner : FieldId := ⟨account, ⟨"owner", by decide⟩, .root⟩
def setUp : MethodId := ⟨account, .classInitializer, .void, []⟩
def create : MethodId := ⟨account, .initializer, .void, [.long]⟩
def deposit : MethodId := ⟨account, ⟨"deposit", by decide⟩, .void, [.long]⟩
def audit : MethodId := ⟨account, ⟨"audit", by decide⟩, .int, []⟩

def calls : List Request :=
  [.method ⟨0⟩ setUp .empty, .method ⟨1⟩ deposit .synchronized, .method ⟨2⟩ create .empty,
    .type account none .abstract .root [.root], .field balance .static (some (.long 7)),
    .method ⟨3⟩ setUp .static, .method ⟨4⟩ audit .abstract, .field owner .empty none,
    .call setUp (.emit .returnVoid), .call create (.emit .returnVoid),
    .call deposit (.emit .returnVoid)]

def returns (moves : List (Instruction Register)) (width : UInt16) : MethodBody :=
  ⟨[⟨0, moves ++ [.returnVoid], none, none, []⟩], width, width⟩

def moves : List (Instruction Register) :=
  [.moveParameter ⟨0, account⟩ 0, .moveParameter ⟨1, .long⟩ 1]

def finished : CompilationUnit where
  classes :=
    [{ id := account
       flags := .abstract
       superclass := .root
       interfaces := [.root]
       sourceFile := none
       staticFields := [⟨balance, .static, some (.long 7)⟩]
       instanceFields := [⟨owner, .empty, none⟩]
       directMethods :=
         [⟨create, .constructor, some (returns moves 3)⟩,
          ⟨setUp, .union .static .constructor, some (returns [] 0)⟩]
       virtualMethods :=
         [⟨deposit, .declaredSynchronized, some (returns moves 3)⟩, ⟨audit, .abstract, none⟩] }]

theorem finished_lawful :
    (Draft.empty.runAll calls).finalize.result = .ok finished ∧
      ∀ c ∈ finished.classes, c.Lawful ∧ ∀ m ∈ c.methods,
        (∃ requested, Draft.Requests calls m.id requested) ∧
          ∀ requested, Draft.Requests calls m.id requested → m.Lawful requested :=
  have hfinalize : (Draft.empty.runAll calls).finalize.result = .ok finished := by decide +kernel
  ⟨hfinalize, Draft.finalize_lawful calls finished hfinalize⟩

end Account
end Dalvik
