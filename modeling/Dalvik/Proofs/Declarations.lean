import Dalvik.Proofs.Facts
import Dalvik.Proofs.Traversal

/-! What a draft holds: whatever calls were made on it, its tables are the facts of those that were
granted, sorted by type and by method. A call that is refused leaves no trace. -/
namespace Dalvik

namespace Draft

variable {d : Draft} {facts : List Fact}

theorem methodFlags_eq {m : MethodId} {requested flags : AccessFlags}
    (h : methodFlags m requested = .ok flags) : flags = storedFlags m requested := by
  unfold methodFlags at h
  simp only [bind_eq_ok] at h
  obtain ⟨_, _, h⟩ := h
  split at h
  · cases h
  · exact (pure_eq_ok.mp h).symm

theorem entry_mention (d : Draft) (t : Ty) : (d.mention t).entry t = d.entry t := by
  unfold mention
  split
  · rfl
  · rename_i hnew
    rw [Bool.not_eq_true] at hnew
    simp [Draft.entry, Registry.find?_push, Registry.find?_of_not_contains hnew]

/-- The tables of a draft are exactly these facts. -/
def Holds (d : Draft) (facts : List Fact) : Prop :=
  d.types = .tabulate (mentioned facts) (entryOf facts)

theorem nodup_mentioned (facts : List Fact) : (mentioned facts).Nodup := nodup_eraseDups _

theorem Holds.entry (holds : d.Holds facts) (t : Ty) : d.entry t = entryOf facts t := by
  rw [Draft.entry, holds, Registry.find?_tabulate (nodup_mentioned facts)]
  split
  · rfl
  · rename_i h
    rw [entryOf_of_notMem h]
    rfl

theorem Holds.types_mention (holds : d.Holds facts) (t : Ty) : (d.mention t).types =
    .tabulate (if t ∈ mentioned facts then mentioned facts else mentioned facts ++ [t])
      (entryOf facts) := by
  unfold mention
  rw [holds, Registry.contains_tabulate]
  by_cases h : t ∈ mentioned facts
  · simp only [h, decide_true, if_true]
    exact holds
  · simp only [h, decide_false, Bool.false_eq_true, if_false]
    rw [← Registry.push_tabulate, entryOf_of_notMem h]

theorem Holds.mention_eq (holds : d.Holds facts) {t : Ty} (h : t ∈ mentioned facts) :
    d.mention t = d := by
  rw [mention, holds, Registry.contains_tabulate, decide_eq_true h, if_pos rfl]

theorem Holds.putEntry (holds : d.Holds facts) {fact : Fact} {t : Ty} {entry : TypeEntry}
    (hmentioned : mentioned (facts ++ [fact]) =
      if t ∈ mentioned facts then mentioned facts else mentioned facts ++ [t])
    (hentry : ∀ s, entryOf (facts ++ [fact]) s = if s = t then entry else entryOf facts s) :
    ((d.mention t).putEntry t entry).Holds (facts ++ [fact]) := by
  have distinct := nodup_mentioned (facts ++ [fact])
  rw [Draft.putEntry, Holds, holds.types_mention, ← hmentioned, Registry.put_tabulate distinct]
  exact Registry.tabulate_congr fun s _ => (hentry s).symm

theorem Holds.run_type (holds : d.Holds facts) {id superclass : Ty} {interfaces : List Ty}
    {sourceFile : Option String} {flags : AccessFlags}
    (checked : checkType id flags superclass interfaces = .ok ())
    (new : id ∉ typesDeclared facts) :
    (d.run (.type id sourceFile flags superclass interfaces)).result = .ok .declared ∧
      (d.run (.type id sourceFile flags superclass interfaces)).state.Holds
        (facts ++ [.type id { flags, superclass, interfaces, sourceFile }]) := by
  have hdefinition : (d.entry id).definition = none := by
    rw [holds.entry]
    exact definition?_eq_none.mpr new
  simp only [run, declareType, checked, entry_mention, hdefinition, Option.isSome_none]
  refine ⟨rfl, holds.putEntry (mentioned_concat rfl) ?_⟩
  intro s
  rw [entryOf_concat_type _ new, holds.entry]
  split <;> simp [*]

theorem Holds.run_field (holds : d.Holds facts) {id : FieldId} {flags : AccessFlags}
    {value : Option Constant} (checked : checkField id flags value = .ok ())
    (new : id ∉ fieldsDeclared facts) :
    (d.run (.field id flags value)).result = .ok .declared ∧
      (d.run (.field id flags value)).state.Holds (facts ++ [.field id { flags, value }]) := by
  have hcontains : (d.entry id.owner).fields.contains id = false := by
    rw [holds.entry, contains_fields]
    exact decide_eq_false new
  simp only [run, declareField, checked, entry_mention, hcontains]
  refine ⟨rfl, holds.putEntry (mentioned_concat rfl) ?_⟩
  intro s
  rw [entryOf_concat_field, holds.entry]
  split <;> simp [*]

theorem Holds.run_method (holds : d.Holds facts) (tidy : Tidy facts) (body : BodyId) {id : MethodId}
    {requested flags : AccessFlags} (checked : methodFlags id requested = .ok flags)
    (new : id ∉ methodsDeclared facts) :
    (d.run (.method body id requested)).result =
        .ok (.started (.start body id (flags.contains .static))) ∧
      (d.run (.method body id requested)).state.Holds (facts ++ [.method ⟨body, id, flags⟩]) := by
  have hcontains : (d.entry id.owner).methods.contains id = false := by
    rw [holds.entry, contains_methods]
    exact decide_eq_false new
  simp only [run, declareMethod, checked, entry_mention, hcontains]
  refine ⟨rfl, holds.putEntry (mentioned_concat rfl) ?_⟩
  intro s
  rw [entryOf_concat_method _ (tidy.callsOn_eq_nil new), holds.entry]
  split <;> simp [*]

theorem Holds.body?_eq (holds : d.Holds facts) (tidy : Tidy facts) (m : MethodId) :
    d.body? m = (methodOf? facts m).map (bodyOf facts) := by
  have hfind : d.body? m = ((d.entry m.owner).methods.find? m).map MethodEntry.body := by
    rw [body?, Draft.entry]
    cases d.types.find? m.owner <;> rfl
  rw [hfind, holds.entry, tidy.find?_methods, Option.map_map]
  rfl

theorem Holds.run_call (holds : d.Holds facts) (tidy : Tidy facts) {x : MethodFact}
    (hx : .method x ∈ facts) (operation : Operation) :
    (d.run (.call x.id operation)).result =
        (((bodyOf facts x).run operation).map Answer.reply).result ∧
      (d.run (.call x.id operation)).state.Holds (facts ++ [.call x.id operation]) := by
  have hfind := tidy.methodOf?_eq_some.mpr hx
  have hbody : d.body? x.id = some (bodyOf facts x) := by
    rw [holds.body?_eq tidy, hfind]
    rfl
  have hstored : (d.entry x.id.owner).methods.find? x.id = some ⟨x.flags, bodyOf facts x⟩ := by
    rw [holds.entry, tidy.find?_methods, hfind]
    rfl
  have hmentioned : x.id.owner ∈ mentioned facts := mem_mentioned.mpr ⟨_, hx, rfl⟩
  have hrun : d.run (.call x.id operation) =
      (((bodyOf facts x).run operation).lift (d.putBody x.id)).map Answer.reply := by
    simp only [run, onBody, hbody, Option.map_some]
  rw [hrun]
  refine ⟨rfl, ?_⟩
  simp only [Outcome.map, Outcome.lift, putBody, hstored]
  rw [← holds.mention_eq hmentioned]
  apply holds.putEntry
  · rw [if_pos hmentioned, mentioned, List.filterMap_append, List.filterMap_cons_none rfl,
      List.filterMap_nil, List.append_nil, mentioned]
  · intro s
    rw [tidy.entryOf_concat_call hx, entry_mention, holds.entry]
    split <;> simp [*]

/-- A request that is admitted is granted, and the draft holds one fact more. -/
theorem Holds.run_admitted (holds : d.Holds facts) (tidy : Tidy facts) {request : Request}
    (checked : request.check = .ok ()) (follows : request.Follows facts) :
    (d.run request).result = request.answer facts ∧
      (d.run request).state.Holds (facts ++ [request.fact]) := by
  cases request with
  | type id sourceFile flags superclass interfaces => exact holds.run_type checked follows
  | field id flags value => exact holds.run_field checked follows
  | method body id requested =>
    cases h : methodFlags id requested with
    | error e => simp [Request.check, h, Except.map] at checked
    | ok flags =>
      obtain rfl := methodFlags_eq h
      exact holds.run_method tidy body h follows
  | call m operation =>
    cases h : methodOf? facts m with
    | none => exact absurd follows (methodOf?_eq_none.mp h)
    | some x =>
      obtain rfl : x.id = m := by simpa using List.find?_some h
      have hrun := holds.run_call tidy (tidy.methodOf?_eq_some.mp h) operation
      simpa only [Request.answer, Request.fact, h] using hrun

theorem run_unchecked {request : Request} {e : Error} (h : request.check = .error e) :
    (d.run request).result = .error e ∧ (d.run request).state = d := by
  cases request with
  | type id sourceFile flags superclass interfaces =>
    have hcheck : checkType id flags superclass interfaces = .error e := h
    simp only [run, declareType, hcheck]
    exact ⟨rfl, rfl⟩
  | field id flags value =>
    have hcheck : checkField id flags value = .error e := h
    simp only [run, declareField, hcheck]
    exact ⟨rfl, rfl⟩
  | method body id requested =>
    cases hcheck : methodFlags id requested with
    | error e' =>
      obtain rfl : e' = e := by simpa [Request.check, hcheck, Except.map] using h
      simp only [run, declareMethod, hcheck]
      exact ⟨rfl, rfl⟩
    | ok flags => simp [Request.check, hcheck, Except.map] at h
  | call m operation => cases h

/-- A declaration that does not follow is a repetition, and the type that it mentions has its entry
already. -/
theorem Holds.run_repeated (holds : d.Holds facts) (tidy : Tidy facts) {request : Request}
    (checked : request.check = .ok ()) (h : ¬request.Follows facts) :
    (d.run request).result = request.refusal ∧ (d.run request).state = d := by
  cases request with
  | type id sourceFile flags superclass interfaces =>
    have known : id ∈ typesDeclared facts := not_not.mp h
    have hcheck : checkType id flags superclass interfaces = .ok () := checked
    have hdefined : (d.entry id).definition.isSome = true := by
      rw [holds.entry, Option.isSome_iff_ne_none]
      exact fun hnone => definition?_eq_none.mp hnone known
    simp only [run, declareType, hcheck, entry_mention, hdefined, if_true]
    exact ⟨rfl, holds.mention_eq (mentioned_of_mem_typesDeclared known)⟩
  | field id flags value =>
    have known : id ∈ fieldsDeclared facts := not_not.mp h
    have hcheck : checkField id flags value = .ok () := checked
    have hdeclared : (d.entry id.owner).fields.contains id = true := by
      rw [holds.entry, contains_fields, decide_eq_true_eq]
      exact known
    simp only [run, declareField, hcheck, entry_mention, hdeclared, if_true]
    exact ⟨rfl, holds.mention_eq (mentioned_of_mem_fieldsDeclared known)⟩
  | method body id requested =>
    have known : id ∈ methodsDeclared facts := not_not.mp h
    have hdeclared : (d.entry id.owner).methods.contains id = true := by
      rw [holds.entry, contains_methods, decide_eq_true_eq]
      exact known
    cases hcheck : methodFlags id requested with
    | error e => simp [Request.check, hcheck, Except.map] at checked
    | ok flags =>
      simp only [run, declareMethod, hcheck, entry_mention, hdeclared, if_true]
      exact ⟨rfl, holds.mention_eq (mentioned_of_mem_methodsDeclared known)⟩
  | call m operation =>
    have hbody : d.body? m = none := by
      rw [holds.body?_eq tidy, methodOf?_eq_none.mpr h]
      rfl
    simp only [run, onBody, hbody, Option.map_none]
    exact ⟨rfl, rfl⟩

theorem isGranted_refusal (request : Request) : request.isGranted request.refusal = false := by
  cases request <;> rfl

theorem Holds.run_refused (holds : d.Holds facts) (tidy : Tidy facts) {request : Request}
    (h : ¬(request.check = .ok () ∧ request.Follows facts)) :
    request.isGranted (d.run request).result = false ∧ (d.run request).state = d := by
  cases hcheck : request.check with
  | error e =>
    obtain ⟨hresult, hstate⟩ := run_unchecked (d := d) hcheck
    rw [hresult]
    refine ⟨?_, hstate⟩
    cases request with
    | call m operation => cases hcheck
    | _ => rfl
  | ok =>
    obtain ⟨hresult, hstate⟩ := holds.run_repeated tidy hcheck (not_and.mp h hcheck)
    rw [hresult]
    exact ⟨isGranted_refusal request, hstate⟩

theorem isGranted_answer {request : Request} (follows : request.Follows facts) :
    request.isGranted (request.answer facts) = true := by
  cases request with
  | call m operation =>
    cases h : methodOf? facts m with
    | none => exact absurd follows (methodOf?_eq_none.mp h)
    | some x =>
      simp only [Request.answer, h, Outcome.map]
      cases ((bodyOf facts x).run operation).result <;> rfl
  | _ => rfl

theorem Holds.isGranted_iff (holds : d.Holds facts) (tidy : Tidy facts) {request : Request} :
    request.isGranted (d.run request).result = true ↔
      request.check = .ok () ∧ request.Follows facts := by
  constructor
  · intro granted
    by_contra h
    rw [(holds.run_refused tidy h).1] at granted
    cases granted
  · intro ⟨checked, follows⟩
    rw [(holds.run_admitted tidy checked follows).1]
    exact isGranted_answer follows

theorem Holds.run (holds : d.Holds facts) (tidy : Tidy facts) (request : Request) :
    (d.run request).state.Holds (facts ++ (d.fact? request).toList) ∧
      Tidy (facts ++ (d.fact? request).toList) := by
  by_cases h : request.check = .ok () ∧ request.Follows facts
  · rw [fact?, if_pos ((holds.isGranted_iff tidy).mpr h)]
    exact ⟨(holds.run_admitted tidy h.1 h.2).2, tidy.concat h.2⟩
  · obtain ⟨refused, same⟩ := holds.run_refused tidy h
    rw [fact?, if_neg (by simp [refused]), same]
    simpa using ⟨holds, tidy⟩

theorem Holds.runAll (holds : d.Holds facts) (tidy : Tidy facts) (history : List Request) :
    (d.runAll history).Holds (facts ++ d.facts history) ∧ Tidy (facts ++ d.facts history) := by
  induction history generalizing d facts with
  | nil => simpa [Draft.facts, Draft.runAll] using ⟨holds, tidy⟩
  | cons request rest ih =>
    obtain ⟨hrun, htidy⟩ := holds.run tidy request
    have hrest := ih hrun htidy
    rw [List.append_assoc] at hrest
    exact hrest

theorem holds_nil : empty.Holds [] := rfl

theorem tidy_nil : Tidy [] := ⟨List.nodup_nil, List.nodup_nil, List.nodup_nil, by simp⟩

/-- Whatever calls were made on a new draft, it holds the facts of those that were granted. -/
theorem empty_holds (history : List Request) :
    (empty.runAll history).Holds (empty.facts history) ∧ Tidy (empty.facts history) :=
  holds_nil.runAll tidy_nil history

end Draft
end Dalvik
