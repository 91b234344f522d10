import Dalvik.Proofs.Equivariance
import Dalvik.Proofs.Inventory
import Dalvik.Proofs.Rearrangement
import Mathlib.Data.Fin.VecNotation
import Mathlib.Data.List.Perm.Basic

/-! The order of independent calls does not matter. Calls are linked if they declare members of one
kind in one type or are on one body; a draft that gets linked calls in the same order gives the same
answers and the same classes, whatever the identities of its bodies. -/
namespace Dalvik

section Definitions

variable (σ : BodyId → BodyId)

def Request.rename : Request → Request
  | .method body id flags => .method (σ body) id flags
  | .call m operation => .call m (operation.rename σ)
  | request => request

def Answer.rename : Answer → Answer
  | .started body => .started (body.rename σ)
  | .reply r => .reply (r.rename σ)
  | answer => answer

def MethodFact.rename (x : MethodFact) : MethodFact := { x with body := σ x.body }

def Fact.rename : Fact → Fact
  | .method x => .method (x.rename σ)
  | .call m operation => .call m (operation.rename σ)
  | fact => fact

def MethodEntry.rename (m : MethodEntry) : MethodEntry := { m with body := m.body.rename σ }

def TypeEntry.rename (entry : TypeEntry) : TypeEntry :=
  { entry with methods := entry.methods.mapValues (MethodEntry.rename σ) }

end Definitions

/-- What the order of calls is kept for. -/
inductive Topic where
  /-- The fields of a type. -/
  | fields (t : Ty)
  /-- The methods of a type. -/
  | methods (t : Ty)
  /-- A method with its body. -/
  | body (m : MethodId)
  deriving DecidableEq

def Fact.topics : Fact → List Topic
  | .type .. => []
  | .field f _ => [.fields f.owner]
  | .method x => [.methods x.id.owner, .body x.id]
  | .call m _ => [.body m]

def Fact.isAbout (topic : Topic) (fact : Fact) : Bool := topic ∈ fact.topics

/-- Calls that have to keep their order: declarations of fields of one type, or of methods of one type,
and the declaration of a method with all the calls on its body. -/
def Request.Linked (r s : Request) : Prop := ∃ topic ∈ r.fact.topics, topic ∈ s.fact.topics

instance (r s : Request) : Decidable (r.Linked s) :=
  inferInstanceAs (Decidable (∃ topic ∈ r.fact.topics, topic ∈ s.fact.topics))

def Draft.answers (d : Draft) : List Request → List (Except Error Answer)
  | [] => []
  | request :: rest => (d.run request).result :: (d.run request).state.answers rest

def Draft.Grants (d : Draft) (history : List Request) : Prop :=
  List.Forall₂ (fun request answer => request.isGranted answer = true) history (d.answers history)

instance (d : Draft) (history : List Request) : Decidable (d.Grants history) :=
  inferInstanceAs (Decidable (List.Forall₂ _ history (d.answers history)))

/-- Facts that define the same classes, up to their order. -/
structure Alike (facts facts' : List Fact) : Prop where
  mentioned : (mentioned facts').Perm (mentioned facts)
  declared : ∀ t, t ∈ typesDeclared facts' ↔ t ∈ typesDeclared facts
  classes : ∀ c t, ClassDef.IsOf c facts' t ↔ ClassDef.IsOf c facts t

namespace Alike

variable {facts facts' facts'' : List Fact}

theorem symm (h : Alike facts facts') : Alike facts' facts :=
  ⟨h.mentioned.symm, fun t => (h.declared t).symm, fun c t => (h.classes c t).symm⟩

theorem trans (h : Alike facts facts') (h' : Alike facts' facts'') : Alike facts facts'' :=
  ⟨h'.mentioned.trans h.mentioned, fun t => (h'.declared t).trans (h.declared t),
    fun c t => (h'.classes c t).trans (h.classes c t)⟩

theorem finalize (h : Alike facts facts') {d d' : Draft} (holds : d.Holds facts)
    (holds' : d'.Holds facts') {unit : CompilationUnit} (hunit : d.finalize.result = .ok unit) :
    ∃ unit', d'.finalize.result = .ok unit' ∧ unit'.classes.Perm unit.classes := by
  obtain ⟨defined, classes⟩ := holds.finalize_eq_ok.mp hunit
  obtain ⟨classes', hclasses, hperm⟩ := List.perm_comp_forall₂ h.mentioned classes
  refine ⟨⟨classes'⟩, holds'.finalize_eq_ok.mpr ⟨?_, ?_⟩, hperm⟩
  · intro t ht
    exact (h.declared t).mpr (defined t (h.mentioned.mem_iff.mp ht))
  · exact hclasses.imp fun t c hc => (h.classes c t).mpr hc

end Alike

section Renaming

variable {σ : BodyId → BodyId} {facts : List Fact}

theorem Request.fact_rename (request : Request) : (request.rename σ).fact = request.fact.rename σ := by
  cases request <;> rfl

theorem Request.check_rename (request : Request) : (request.rename σ).check = request.check := by
  cases request <;> rfl

theorem mentioned_rename : mentioned (facts.map (Fact.rename σ)) = mentioned facts := by
  have howner : Fact.owner? ∘ Fact.rename σ = Fact.owner? := by
    funext fact
    cases fact <;> rfl
  rw [mentioned, List.filterMap_map, howner, mentioned]

theorem filterMap_type?_rename :
    (facts.map (Fact.rename σ)).filterMap Fact.type? = facts.filterMap Fact.type? := by
  have htype : Fact.type? ∘ Fact.rename σ = Fact.type? := by
    funext fact
    cases fact <;> rfl
  rw [List.filterMap_map, htype]

theorem filterMap_field?_rename :
    (facts.map (Fact.rename σ)).filterMap Fact.field? = facts.filterMap Fact.field? := by
  have hfield : Fact.field? ∘ Fact.rename σ = Fact.field? := by
    funext fact
    cases fact <;> rfl
  rw [List.filterMap_map, hfield]

theorem filterMap_method?_rename : (facts.map (Fact.rename σ)).filterMap Fact.method? =
    (facts.filterMap Fact.method?).map (MethodFact.rename σ) := by
  have hmethod : Fact.method? ∘ Fact.rename σ =
      fun fact => fact.method?.map (MethodFact.rename σ) := by
    funext fact
    cases fact <;> rfl
  rw [List.filterMap_map, hmethod, List.map_filterMap]

theorem methodsDeclared_rename :
    methodsDeclared (facts.map (Fact.rename σ)) = methodsDeclared facts := by
  rw [methodsDeclared, filterMap_method?_rename, List.map_map]
  rfl

theorem methodsOf_rename (t : Ty) : methodsOf (facts.map (Fact.rename σ)) t =
    (methodsOf facts t).map (MethodFact.rename σ) := by
  rw [methodsOf, filterMap_method?_rename, List.filter_map]
  rfl

theorem methodOf?_rename (m : MethodId) : methodOf? (facts.map (Fact.rename σ)) m =
    (methodOf? facts m).map (MethodFact.rename σ) := by
  rw [methodOf?, filterMap_method?_rename, List.find?_map]
  rfl

theorem callsOn_rename (m : MethodId) : callsOn (facts.map (Fact.rename σ)) m =
    (callsOn facts m).map (Operation.rename σ) := by
  have hcall : Fact.call? ∘ Fact.rename σ =
      fun fact => fact.call?.map fun c => (c.1, c.2.rename σ) := by
    funext fact
    cases fact <;> rfl
  rw [callsOn, List.filterMap_map, hcall, ← List.map_filterMap, List.filter_map, List.map_map, callsOn,
    List.map_map]
  rfl

theorem Request.follows_rename (request : Request) :
    (request.rename σ).Follows (facts.map (Fact.rename σ)) ↔ request.Follows facts := by
  cases request with
  | type => simp only [rename, Follows, typesDeclared, filterMap_type?_rename]
  | field => simp only [rename, Follows, fieldsDeclared, filterMap_field?_rename]
  | method => simp only [rename, Follows, methodsDeclared_rename]
  | call => simp only [rename, Follows, methodsDeclared_rename]

variable (injective : σ.Injective)
include injective

theorem bodyOf_rename (x : MethodFact) :
    bodyOf (facts.map (Fact.rename σ)) (x.rename σ) = (bodyOf facts x).rename σ := by
  have hid : (x.rename σ).id = x.id := rfl
  have hflags : (x.rename σ).flags = x.flags := rfl
  have hbody : (x.rename σ).body = σ x.body := rfl
  rw [bodyOf, hid, hflags, hbody, callsOn_rename, ← Assembler.start_rename,
    Assembler.runAll_rename injective, bodyOf]

theorem entryOf_rename (t : Ty) :
    entryOf (facts.map (Fact.rename σ)) t = (entryOf facts t).rename σ := by
  simp only [entryOf, TypeEntry.rename, definition?, filterMap_type?_rename, fieldsOf,
    filterMap_field?_rename, methodsOf_rename, Registry.mapValues_ofEntries, List.map_map,
    Function.comp_def, bodyOf_rename injective]
  rfl

theorem Request.answer_rename (request : Request) :
    (request.rename σ).answer (facts.map (Fact.rename σ)) =
      relabel σ (Answer.rename σ) (request.answer facts) := by
  cases request with
  | call m operation =>
    simp only [rename, answer, methodOf?_rename]
    cases methodOf? facts m with
    | none => rfl
    | some x =>
      simp only [Option.map_some, bodyOf_rename injective]
      have h : Outcome.Renamed σ (Answer.rename σ) (((bodyOf facts x).run operation).map Answer.reply)
          ((((bodyOf facts x).rename σ).run (operation.rename σ)).map Answer.reply) :=
        (Assembler.run_rename injective operation).map fun _ => rfl
      exact h.result
  | method body id flags =>
    simp only [rename, answer, relabel, Answer.rename, Assembler.start_rename]
  | _ => rfl

theorem MethodEntry.define_rename (m : MethodId) (entry : MethodEntry) :
    (MethodEntry.define m (entry.rename σ)).result =
      relabel σ id (MethodEntry.define m entry).result := by
  have hempty : (entry.rename σ).body.isEmpty = entry.body.isEmpty := rfl
  have hflags : (entry.rename σ).flags = entry.flags := rfl
  unfold MethodEntry.define
  rw [hempty, hflags]
  split
  · split <;> rfl
  · have h : Outcome.Renamed σ id
        (entry.body.finish.map fun body => (⟨m, entry.flags, some body⟩ : MethodDef))
        ((entry.body.rename σ).finish.map fun body => ⟨m, entry.flags, some body⟩) :=
      (Assembler.finish_rename injective).map fun _ => rfl
    exact h.result

theorem TypeEntry.define_rename (entry : TypeEntry) (t : Ty) (definition : TypeDefinition) :
    ((entry.rename σ).define t definition).result =
      relabel σ id (entry.define t definition).result := by
  have hmethods : ((entry.rename σ).methods.entries.mapM fun m =>
        (MethodEntry.define m.1 m.2).result) =
      relabel σ id (entry.methods.entries.mapM fun m => (MethodEntry.define m.1 m.2).result) := by
    apply relabel_mapM
    intro m
    exact MethodEntry.define_rename injective m.1 m.2
  rw [result_define, result_define, hmethods]
  cases entry.methods.entries.mapM fun m => (MethodEntry.define m.1 m.2).result <;> rfl

theorem alike_rename : Alike facts (facts.map (Fact.rename σ)) := by
  refine ⟨?_, ?_, ?_⟩
  · rw [mentioned_rename]
  · intro t
    rw [typesDeclared, filterMap_type?_rename, typesDeclared]
  · intro c t
    have hok {x : Except Error ClassDef} : relabel σ id x = .ok c ↔ x = .ok c := by
      cases x <;> simp [relabel]
    simp only [ClassDef.IsOf, definition?, filterMap_type?_rename, entryOf_rename injective,
      TypeEntry.define_rename injective, hok]

end Renaming

section Topics

variable (facts : List Fact)

theorem filterMap_isAbout {α : Type} {view : Fact → Option α} {topic : Topic}
    (only : ∀ fact, topic ∉ fact.topics → view fact = none) :
    (facts.filter (Fact.isAbout topic)).filterMap view = facts.filterMap view := by
  rw [List.filterMap_filter]
  congr 1
  funext fact
  by_cases h : topic ∈ fact.topics
  · simp [Fact.isAbout, h]
  · simp [Fact.isAbout, h, only fact h]

theorem fieldsOf_filter (t : Ty) :
    fieldsOf (facts.filter (Fact.isAbout (.fields t))) t = fieldsOf facts t := by
  rw [fieldsOf, fieldsOf, List.filter_filterMap, List.filter_filterMap]
  apply filterMap_isAbout
  intro fact h
  cases fact with
  | field f entry =>
    have hother : f.owner ≠ t := by simpa [Fact.topics, eq_comm] using h
    simp [Fact.field?, Option.filter_some, hother]
  | _ => rfl

theorem methodsOf_filter (t : Ty) :
    methodsOf (facts.filter (Fact.isAbout (.methods t))) t = methodsOf facts t := by
  rw [methodsOf, methodsOf, List.filter_filterMap, List.filter_filterMap]
  apply filterMap_isAbout
  intro fact h
  cases fact with
  | method x =>
    have hother : x.id.owner ≠ t := by simpa [Fact.topics, eq_comm] using h
    simp [Fact.method?, Option.filter_some, hother]
  | _ => rfl

theorem callsOn_filter (m : MethodId) :
    callsOn (facts.filter (Fact.isAbout (.body m))) m = callsOn facts m := by
  rw [callsOn, callsOn, List.filter_filterMap, List.filter_filterMap]
  congr 1
  apply filterMap_isAbout
  intro fact h
  cases fact with
  | call n operation =>
    have hother : n ≠ m := by simpa [Fact.topics, eq_comm] using h
    simp [Fact.call?, Option.filter_some, hother]
  | _ => rfl

theorem methodOf?_filter (m : MethodId) :
    methodOf? (facts.filter (Fact.isAbout (.body m))) m = methodOf? facts m := by
  rw [methodOf?, methodOf?, ← List.head?_filter, ← List.head?_filter, List.filter_filterMap,
    List.filter_filterMap]
  congr 1
  apply filterMap_isAbout
  intro fact h
  cases fact with
  | method x =>
    have hother : x.id ≠ m := by simpa [Fact.topics, eq_comm] using h
    simp [Fact.method?, Option.filter_some, hother]
  | _ => rfl

end Topics

/-- What is answered to a call on a body depends on what was said of it before. -/
theorem answer_congr {facts facts' : List Fact} {m : MethodId}
    (h : facts'.filter (Fact.isAbout (.body m)) = facts.filter (Fact.isAbout (.body m)))
    (operation : Operation) :
    (Request.call m operation).answer facts' = (Request.call m operation).answer facts := by
  have hmethod : methodOf? facts' m = methodOf? facts m := by
    rw [← methodOf?_filter facts', h, methodOf?_filter]
  have hcalls : callsOn facts' m = callsOn facts m := by
    rw [← callsOn_filter facts', h, callsOn_filter]
  simp only [Request.answer, hmethod]
  cases hx : methodOf? facts m with
  | none => rfl
  | some x =>
    obtain rfl : x.id = m := by simpa using List.find?_some hx
    simp only [bodyOf, hcalls]

theorem Tidy.perm {facts facts' : List Fact} (tidy : Tidy facts) (h : facts'.Perm facts) :
    Tidy facts' where
  types := ((h.filterMap _).map _).nodup_iff.mpr tidy.types
  fields := ((h.filterMap _).map _).nodup_iff.mpr tidy.fields
  methods := ((h.filterMap _).map _).nodup_iff.mpr tidy.methods
  calls := fun m operation hmem =>
    ((h.filterMap _).map _).mem_iff.mpr (tidy.calls m operation (h.mem_iff.mp hmem))

theorem Tidy.follows {before after : List Fact} {request : Request}
    (tidy : Tidy (before ++ request.fact :: after))
    (declared : ∀ m operation, request = .call m operation → m ∈ methodsDeclared before) :
    request.Follows before := by
  have hnew {α : Type} {xs ys : List α} {x : α} (h : (xs ++ x :: ys).Nodup) : x ∉ xs := by
    intro hx
    exact (List.nodup_append.mp h).2.2 x hx x List.mem_cons_self rfl
  cases request with
  | type =>
    have h := tidy.types
    rw [typesDeclared_append] at h
    exact hnew h
  | field =>
    have h := tidy.fields
    rw [fieldsDeclared_append] at h
    exact hnew h
  | method =>
    have h := tidy.methods
    rw [methodsDeclared_append] at h
    exact hnew h
  | call m operation => exact declared m operation rfl

def Admissible (facts : List Fact) (history : List Request) : Prop :=
  ∀ (k : Nat) (request : Request), history[k]? = some request →
    request.check = .ok () ∧ request.Follows (facts ++ (history.take k).map Request.fact)

theorem admissible_cons {facts : List Fact} {request : Request} {rest : List Request} :
    Admissible facts (request :: rest) ↔ (request.check = .ok () ∧ request.Follows facts) ∧
      Admissible (facts ++ [request.fact]) rest := by
  constructor
  · intro h
    refine ⟨by simpa using h 0 request rfl, ?_⟩
    intro k next hnext
    simpa using h (k + 1) next (by simpa using hnext)
  · rintro ⟨hfirst, hrest⟩ k next hnext
    cases k with
    | zero =>
      obtain rfl : request = next := by simpa using hnext
      simpa using hfirst
    | succ k => simpa using hrest k next (by simpa using hnext)

namespace Draft

variable {d : Draft} {facts : List Fact}

theorem Holds.grants_iff (holds : d.Holds facts) (tidy : Tidy facts) {history : List Request} :
    d.Grants history ↔ Admissible facts history := by
  induction history generalizing d facts with
  | nil => simp [Grants, answers, Admissible]
  | cons request rest ih =>
    rw [admissible_cons, Grants, answers, List.forall₂_cons, holds.isGranted_iff tidy]
    apply and_congr_right
    intro h
    exact ih (holds.run_admitted tidy h.1 h.2).2 (tidy.concat h.2)

theorem facts_of_grants {history : List Request} (h : d.Grants history) :
    d.facts history = history.map Request.fact := by
  induction history generalizing d with
  | nil => rfl
  | cons request rest ih =>
    rw [Grants, answers, List.forall₂_cons] at h
    rw [Draft.facts, fact?, if_pos h.1, ih h.2]
    rfl

theorem Holds.getElem?_answers (holds : d.Holds facts) (tidy : Tidy facts) {history : List Request}
    (admissible : Admissible facts history) {k : Nat} {request : Request}
    (hk : history[k]? = some request) :
    (d.answers history)[k]? = some (request.answer (facts ++ (history.take k).map Request.fact)) := by
  induction history generalizing d facts k with
  | nil => simp at hk
  | cons first rest ih =>
    obtain ⟨hfirst, hrest⟩ := admissible_cons.mp admissible
    obtain ⟨hresult, hstate⟩ := holds.run_admitted tidy hfirst.1 hfirst.2
    cases k with
    | zero =>
      obtain rfl : first = request := by simpa using hk
      simp [answers, hresult]
    | succ k =>
      rw [List.getElem?_cons_succ] at hk
      have h := ih hstate (tidy.concat hfirst.2) hrest hk
      rw [answers, List.getElem?_cons_succ, h]
      simp

end Draft

section Rearranging

variable {history : List Request} {π : Equiv.Perm (Fin history.length)}
  (keeps : Keeps Request.Linked history π)
include keeps

theorem filter_isAbout (topic : Topic) :
    ((rearranged history π).map Request.fact).filter (Fact.isAbout topic) =
      (history.map Request.fact).filter (Fact.isAbout topic) := by
  rw [List.filter_map, List.filter_map, filter_rearranged keeps]
  intro r s hr hs
  exact ⟨topic, of_decide_eq_true hr, of_decide_eq_true hs⟩

theorem filter_isAbout_take (topic : Topic) (i : Fin history.length)
    (h : topic ∈ (history.get (π i)).fact.topics) :
    (((rearranged history π).take i).map Request.fact).filter (Fact.isAbout topic) =
      ((history.take (π i)).map Request.fact).filter (Fact.isAbout topic) := by
  rw [List.filter_map, List.filter_map, filter_take_rearranged keeps _ i (decide_eq_true h)]
  intro r s hr hs
  exact ⟨topic, of_decide_eq_true hr, of_decide_eq_true hs⟩

/-- Whatever is said of a type is said in the same order. -/
theorem entryOf_rearranged (tidy : Tidy (history.map Request.fact)) (t : Ty) :
    entryOf ((rearranged history π).map Request.fact) t = entryOf (history.map Request.fact) t := by
  have hperm : ((rearranged history π).map Request.fact).Perm (history.map Request.fact) :=
    rearranged_perm.map Request.fact
  have hdefinition : definition? ((rearranged history π).map Request.fact) t =
      definition? (history.map Request.fact) t := by
    apply Option.ext
    intro definition
    rw [(tidy.perm hperm).definition?_eq_some, tidy.definition?_eq_some, hperm.mem_iff]
  have hfields : fieldsOf ((rearranged history π).map Request.fact) t =
      fieldsOf (history.map Request.fact) t := by
    rw [← fieldsOf_filter, filter_isAbout keeps, fieldsOf_filter]
  have hmethods : methodsOf ((rearranged history π).map Request.fact) t =
      methodsOf (history.map Request.fact) t := by
    rw [← methodsOf_filter, filter_isAbout keeps, methodsOf_filter]
  have hbody : bodyOf ((rearranged history π).map Request.fact) =
      bodyOf (history.map Request.fact) := by
    funext x
    rw [bodyOf, bodyOf, ← callsOn_filter, filter_isAbout keeps, callsOn_filter]
  rw [entryOf, entryOf, hdefinition, hfields, hmethods, hbody]

theorem alike_rearranged (tidy : Tidy (history.map Request.fact)) :
    Alike (history.map Request.fact) ((rearranged history π).map Request.fact) := by
  have hperm : ((rearranged history π).map Request.fact).Perm (history.map Request.fact) :=
    rearranged_perm.map Request.fact
  refine ⟨?_, ?_, ?_⟩
  · rw [mentioned, mentioned, List.perm_ext_iff_of_nodup (nodup_eraseDups _) (nodup_eraseDups _)]
    intro t
    rw [List.mem_eraseDups, List.mem_eraseDups, (hperm.filterMap Fact.owner?).mem_iff]
  · intro t
    rw [mem_typesDeclared, mem_typesDeclared]
    simp only [hperm.mem_iff]
  · intro c t
    have h := entryOf_rearranged keeps tidy t
    have hdefinition : definition? ((rearranged history π).map Request.fact) t =
        definition? (history.map Request.fact) t := congrArg TypeEntry.definition h
    rw [ClassDef.IsOf, ClassDef.IsOf, h, hdefinition]

theorem answer_rearranged (i : Fin history.length) :
    (history.get (π i)).answer (((rearranged history π).take i).map Request.fact) =
      (history.get (π i)).answer ((history.take (π i)).map Request.fact) := by
  cases h : history.get (π i) with
  | call m operation =>
    apply answer_congr
    apply filter_isAbout_take keeps
    rw [h]
    exact List.mem_singleton_self _
  | _ => rfl

theorem admissible_rearranged (admissible : Admissible [] history)
    (tidy : Tidy (history.map Request.fact)) : Admissible [] (rearranged history π) := by
  intro k request hk
  have hperm : (rearranged history π).Perm history := rearranged_perm
  have hlt : k < (rearranged history π).length := (List.getElem?_eq_some_iff.mp hk).1
  obtain ⟨i, rfl⟩ : ∃ i : Fin history.length, i.val = k := ⟨⟨k, hperm.length_eq ▸ hlt⟩, rfl⟩
  have hget : request = history.get (π i) := by
    rw [getElem?_rearranged] at hk
    exact (Option.some.inj hk).symm
  obtain ⟨checked, follows⟩ := admissible (π i) request (by simp [hget])
  refine ⟨checked, ?_⟩
  have hsplit : (rearranged history π).map Request.fact =
      ((rearranged history π).take i).map Request.fact ++
        request.fact :: ((rearranged history π).drop (i + 1)).map Request.fact := by
    have hdrop : (rearranged history π).drop i = request :: (rearranged history π).drop (i + 1) := by
      rw [List.drop_eq_getElem_cons hlt, (List.getElem?_eq_some_iff.mp hk).2]
    rw [← List.map_cons, ← hdrop, ← List.map_append, List.take_append_drop]
  have htidy := tidy.perm (hperm.map Request.fact)
  rw [hsplit] at htidy
  apply htidy.follows
  intro m operation hcall
  -- The declaration of the method is linked to the call, and was before it.
  have htopic : .body m ∈ (history.get (π i)).fact.topics := by
    rw [← hget, hcall]
    exact List.mem_singleton_self _
  rw [hcall] at follows
  have hbefore : m ∈ methodsDeclared ((history.take (π i)).map Request.fact) := follows
  rw [← not_not (a := _ ∈ _), ← methodOf?_eq_none] at hbefore ⊢
  rwa [← methodOf?_filter, filter_isAbout_take keeps (.body m) i htopic, methodOf?_filter]

end Rearranging

theorem admissible_rename {σ : BodyId → BodyId} {history : List Request}
    (h : Admissible [] history) : Admissible [] (history.map (Request.rename σ)) := by
  intro k renamed hk
  rw [List.getElem?_map] at hk
  obtain ⟨request, hrequest, rfl⟩ := Option.map_eq_some_iff.mp hk
  have hfacts : ((history.map (Request.rename σ)).take k).map Request.fact =
      ((history.take k).map Request.fact).map (Fact.rename σ) := by
    simp only [← List.map_take, List.map_map, Function.comp_def, Request.fact_rename]
  obtain ⟨checked, follows⟩ := h k request hrequest
  rw [List.nil_append, hfacts, Request.check_rename, Request.follows_rename]
  exact ⟨checked, follows⟩

def reordered (σ : BodyId → BodyId) (history : List Request)
    (π : Equiv.Perm (Fin history.length)) : List Request :=
  (rearranged history π).map (Request.rename σ)

/-- A new draft takes the calls as it does in their first order: all are granted, each gets the same
answer, and the units have the same classes. -/
structure Draft.TakesAlike (σ : BodyId → BodyId) (history : List Request)
    (π : Equiv.Perm (Fin history.length)) : Prop where
  granted : empty.Grants (reordered σ history π)
  answers : ∀ i : Fin history.length, (empty.answers (reordered σ history π))[i.val]? =
    (empty.answers history)[(π i).val]?.map (relabel σ (Answer.rename σ))
  finishes : (∃ unit, (empty.runAll (reordered σ history π)).finalize.result = .ok unit) ↔
    ∃ unit, (empty.runAll history).finalize.result = .ok unit
  classes : ∀ unit unit', (empty.runAll history).finalize.result = .ok unit →
    (empty.runAll (reordered σ history π)).finalize.result = .ok unit' →
      unit'.classes.Perm unit.classes ∧ ∀ t, unit'.class? t = unit.class? t

namespace Draft

/-- Calls that are not linked can be made in any order. -/
theorem reordered_takesAlike (σ : BodyId → BodyId) (injective : σ.Injective)
    (history : List Request) (π : Equiv.Perm (Fin history.length))
    (granted : empty.Grants history) (keeps : Keeps Request.Linked history π) :
    TakesAlike σ history π := by
  obtain ⟨holds, tidy⟩ := empty_holds history
  obtain ⟨holds', -⟩ := empty_holds (reordered σ history π)
  have admissible := (holds_nil.grants_iff tidy_nil).mp granted
  rw [facts_of_grants granted] at holds tidy
  have admissible' : Admissible [] (reordered σ history π) :=
    admissible_rename (admissible_rearranged keeps admissible tidy)
  have granted' := (holds_nil.grants_iff tidy_nil).mpr admissible'
  have hfacts (requests : List Request) : (requests.map (Request.rename σ)).map Request.fact =
      (requests.map Request.fact).map (Fact.rename σ) := by
    simp only [List.map_map, Function.comp_def, Request.fact_rename]
  have alike : Alike (history.map Request.fact) ((reordered σ history π).map Request.fact) := by
    rw [reordered, hfacts]
    exact (alike_rearranged keeps tidy).trans (alike_rename injective)
  rw [facts_of_grants granted'] at holds'
  refine ⟨granted', ?_, ?_, ?_⟩
  · intro i
    have hold : history[(π i).val]? = some (history.get (π i)) := by simp
    have hnew : (reordered σ history π)[i.val]? = some ((history.get (π i)).rename σ) := by
      rw [reordered, List.getElem?_map, getElem?_rearranged]
      rfl
    rw [holds_nil.getElem?_answers tidy_nil admissible' hnew,
      holds_nil.getElem?_answers tidy_nil admissible hold, Option.map_some, List.nil_append,
      List.nil_append, reordered, ← List.map_take, hfacts, Request.answer_rename injective,
      answer_rearranged keeps]
  · constructor
    · rintro ⟨unit', h⟩
      obtain ⟨unit, hunit, -⟩ := alike.symm.finalize holds' holds h
      exact ⟨unit, hunit⟩
    · rintro ⟨unit, h⟩
      obtain ⟨unit', hunit, -⟩ := alike.finalize holds holds' h
      exact ⟨unit', hunit⟩
  · intro unit unit' h h'
    obtain ⟨found, hfound, hperm⟩ := alike.finalize holds holds' h
    obtain rfl : found = unit' := Except.ok.inj (hfound.symm.trans h')
    refine ⟨hperm, ?_⟩
    intro t
    apply Option.ext
    intro c
    rw [CompilationUnit.class?_eq_some (holds.nodup_classIds h),
      CompilationUnit.class?_eq_some (holds'.nodup_classIds h'), hperm.mem_iff]

end Draft

namespace Counter

def granted : List Request :=
  [.field total .static (some (.int 7)), .method ⟨0⟩ area .abstract, .method ⟨1⟩ reset .static,
    .type counter none .empty .root [shape], .call reset (.emit .returnVoid),
    .field count .empty none, .type shape none .abstract .root []]

def turned : Equiv.Perm (Fin 7) where
  toFun := ![6, 3, 2, 4, 1, 0, 5]
  invFun := ![5, 4, 2, 1, 3, 6, 0]
  left_inv := by unfold Function.LeftInverse; decide
  right_inv := by unfold Function.RightInverse Function.LeftInverse; decide

def order : Equiv.Perm (Fin granted.length) := turned

def swapped : BodyId → BodyId := Equiv.swap ⟨0⟩ ⟨1⟩

theorem reordered_granted :
    Draft.empty.Grants granted ∧ Keeps Request.Linked granted order ∧
      (Draft.empty.runAll granted).finalize.result = .ok finished ∧
      Draft.TakesAlike swapped granted order := by
  have hgranted : Draft.empty.Grants granted := by decide
  have keeps : Keeps Request.Linked granted order := by decide
  exact ⟨hgranted, keeps, by decide,
    Draft.reordered_takesAlike swapped (Equiv.injective _) granted order hgranted keeps⟩

end Counter
end Dalvik
