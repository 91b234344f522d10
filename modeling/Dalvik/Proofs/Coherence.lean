import Dalvik.Proofs.Calls
import Dalvik.Proofs.Inventory

/-! The tables of a draft stay in step with their indices. Whatever calls were made, each type and each
member is found where it stands, members stand with the type that owns them, and the body of a method is
the one that its declaration started. -/
namespace Dalvik

namespace Registry

variable {κ α : Type} [DecidableEq κ] {r : Registry κ α} {key : κ} {value : α} {f : α → α}

def adjust (r : Registry κ α) (key : κ) (f : α → α) : Registry κ α :=
  { r with entries := r.entries.map fun entry =>
      if entry.1 = key then (entry.1, f entry.2) else entry }

theorem Coherent.put_eq_adjust (coherent : r.Coherent) (h : r.find? key = some value) :
    r.put key (f value) = r.adjust key f := by
  rw [coherent.put_eq, adjust]
  congr 1
  apply List.map_congr_left
  intro entry hentry
  by_cases hkey : entry.1 = key
  · have hvalue : r.find? key = some entry.2 := (coherent.found key entry.2).mpr (hkey ▸ hentry)
    obtain rfl := Option.some.inj (h.symm.trans hvalue)
    simp [hkey]
  · simp [hkey]

theorem Coherent.adjust_eq_self (coherent : r.Coherent)
    (h : ∀ value, r.find? key = some value → f value = value) : r.adjust key f = r := by
  have hsame : r.entries.map (fun entry => if entry.1 = key then (entry.1, f entry.2) else entry) =
      r.entries.map id := by
    apply List.map_congr_left
    intro entry hentry
    by_cases hkey : entry.1 = key
    · rw [if_pos hkey, h entry.2 ((coherent.found key entry.2).mpr (hkey ▸ hentry))]
      rfl
    · rw [if_neg hkey]
      rfl
  rw [adjust, hsame, List.map_id]

end Registry

/-- What is known of a type stands in tables that are in step, members belong to the type, and there is
something to know. -/
structure TypeEntry.Coherent (entry : TypeEntry) (t : Ty) : Prop where
  fields : entry.fields.Coherent
  methods : entry.methods.Coherent
  fieldOwners : ∀ f ∈ entry.fields.entries, f.1.owner = t
  methodOwners : ∀ m ∈ entry.methods.entries, m.1.owner = t
  present : entry.definition.isSome = true ∨ entry.members ≠ []

theorem Tidy.entryOf_coherent {facts : List Fact} (tidy : Tidy facts) {t : Ty}
    (ht : t ∈ mentioned facts) : (entryOf facts t).Coherent t where
  fields := tidy.coherent_fields t
  methods := tidy.coherent_methods t
  fieldOwners := fun _ hf => (mem_fieldsOf.mp hf).2
  methodOwners := fun m hm => by
    obtain ⟨x, hx, rfl⟩ := List.mem_map.mp hm
    exact (mem_methodsOf.mp hx).2
  present := by
    by_contra h
    rw [not_or, not_not, Bool.not_eq_true, Option.isSome_eq_false_iff,
      Option.isNone_iff_eq_none] at h
    exact not_mem_mentioned (definition?_eq_none.mp h.1) h.2 ht

namespace Draft

variable {d : Draft} {facts : List Fact} {m : MethodId}

structure Coherent (d : Draft) : Prop where
  types : d.types.Coherent
  entries : ∀ t entry, (t, entry) ∈ d.types.entries → entry.Coherent t

theorem Holds.coherent (holds : d.Holds facts) (tidy : Tidy facts) : d.Coherent where
  types := by
    rw [holds]
    exact Registry.coherent_tabulate (nodup_mentioned facts)
  entries := by
    intro t entry hentry
    rw [holds] at hentry
    obtain ⟨s, hs, hpair⟩ := List.mem_map.mp hentry
    obtain ⟨rfl, rfl⟩ := Prod.mk.inj hpair
    exact tidy.entryOf_coherent hs

/-- Changes the body of one method and nothing else. -/
def adjustBody (d : Draft) (m : MethodId) (f : Assembler → Assembler) : Draft :=
  ⟨d.types.adjust m.owner fun entry =>
    { entry with methods := entry.methods.adjust m fun stored => { stored with body := f stored.body } }⟩

theorem Coherent.methods (coherent : d.Coherent) {t : Ty} {entry : TypeEntry}
    (h : d.types.find? t = some entry) : entry.methods.Coherent :=
  (coherent.entries t entry ((coherent.types.found t entry).mp h)).methods

theorem Coherent.adjustBody_of_none (coherent : d.Coherent) (h : d.body? m = none)
    (f : Assembler → Assembler) : d.adjustBody m f = d := by
  rw [adjustBody, coherent.types.adjust_eq_self]
  intro entry hentry
  have hmissing : entry.methods.find? m = none := by simpa [body?, hentry] using h
  rw [(coherent.methods hentry).adjust_eq_self (by simp [hmissing])]

theorem Coherent.run_call (coherent : d.Coherent) (m : MethodId) (operation : Operation) :
    (d.run (.call m operation)).state = d.adjustBody m fun body => (body.run operation).state := by
  cases hbody : d.body? m with
  | none =>
    simp only [run, onBody, hbody, Option.map_none, coherent.adjustBody_of_none hbody]
    rfl
  | some body =>
    obtain ⟨entry, hentry, hfound⟩ := Option.bind_eq_some_iff.mp hbody
    obtain ⟨stored, hstored, rfl⟩ := Option.map_eq_some_iff.mp hfound
    have howner : d.entry m.owner = entry := by simp [Draft.entry, hentry]
    simp only [run, onBody, hbody, Option.map_some, Outcome.map, Outcome.lift, putBody, howner,
      hstored, putEntry, adjustBody]
    rw [← coherent.types.put_eq_adjust hentry, ← (coherent.methods hentry).put_eq_adjust hstored]

theorem facts_append (before after : List Request) :
    d.facts (before ++ after) = d.facts before ++ (d.runAll before).facts after := by
  induction before generalizing d with
  | nil => rfl
  | cons request rest ih =>
    simp only [List.cons_append, Draft.facts, ih, List.append_assoc]
    rfl

theorem mem_facts {fact : Fact} {history : List Request} : fact ∈ d.facts history ↔
    ∃ before request after, history = before ++ request :: after ∧
      (d.runAll before).fact? request = some fact := by
  constructor
  · intro h
    induction history generalizing d with
    | nil => cases h
    | cons request rest ih =>
      obtain h | h := List.mem_append.mp h
      · exact ⟨[], request, rest, rfl, Option.mem_toList.mp h⟩
      · obtain ⟨before, found, after, rfl, hfact⟩ := ih h
        exact ⟨request :: before, found, after, rfl, hfact⟩
  · rintro ⟨before, request, after, rfl, hfact⟩
    rw [facts_append]
    apply List.mem_append_right
    simp [Draft.facts, hfact]

theorem Holds.fact?_eq_some (holds : d.Holds facts) (tidy : Tidy facts) {request : Request}
    {fact : Fact} : d.fact? request = some fact ↔
      (request.check = .ok () ∧ request.Follows facts) ∧ request.fact = fact := by
  simp [fact?, ← holds.isGranted_iff tidy]

end Draft

def Request.callOn? (m : MethodId) : Request → Option Operation
  | .call n operation => if n = m then some operation else none
  | _ => none

theorem callsOn_append (facts later : List Fact) (m : MethodId) :
    callsOn (facts ++ later) m = callsOn facts m ++ callsOn later m := by
  simp only [callsOn, List.filterMap_append, List.filter_append, List.map_append]

namespace Draft

variable {d : Draft} {facts : List Fact} {m : MethodId} {history : List Request}

theorem Holds.callsOn_fact? (holds : d.Holds facts) (tidy : Tidy facts)
    (declared : m ∈ methodsDeclared facts) (request : Request) :
    callsOn (d.fact? request).toList m = (request.callOn? m).toList := by
  cases request with
  | call n operation =>
    by_cases h : n = m
    · subst h
      have hfact : d.fact? (.call n operation) = some (.call n operation) :=
        (holds.fact?_eq_some tidy).mpr ⟨⟨rfl, declared⟩, rfl⟩
      simp [hfact, callsOn, Fact.call?, Request.callOn?]
    · unfold fact?
      split <;> simp [callsOn, Fact.call?, Request.callOn?, Request.fact, h]
  | _ =>
    unfold fact?
    split <;> rfl

theorem Holds.callsOn_facts (holds : d.Holds facts) (tidy : Tidy facts)
    (declared : m ∈ methodsDeclared facts) (history : List Request) :
    callsOn (d.facts history) m = history.filterMap (Request.callOn? m) := by
  induction history generalizing d facts with
  | nil => rfl
  | cons request rest ih =>
    obtain ⟨hrun, htidy⟩ := holds.run tidy request
    have hrest := ih hrun htidy (by
      rw [methodsDeclared_append]
      exact List.mem_append_left _ declared)
    rw [Draft.facts, callsOn_append, hrest, holds.callsOn_fact? tidy declared, List.filterMap_cons]
    cases Request.callOn? m request <;> rfl

/-- The history in which the method is declared: it has the body that was started, and these requests
come after. -/
def Declares (history : List Request) (m : MethodId) (requested : AccessFlags) (body : Assembler)
    (after : List Request) : Prop :=
  ∃ before id, history = before ++ .method id m requested :: after ∧
    ((empty.runAll before).run (.method id m requested)).result = .ok (.started body)

variable {requested : AccessFlags} {body : Assembler} {after : List Request}

theorem declares_iff : Declares history m requested body after ↔
    ∃ before id, history = before ++ .method id m requested :: after ∧
      ((Request.method id m requested).check = .ok () ∧
        m ∉ methodsDeclared (empty.facts before)) ∧
      body = .start id m ((storedFlags m requested).contains .static) := by
  unfold Declares
  refine exists_congr fun before => exists_congr fun id => and_congr_right fun _ => ?_
  obtain ⟨holds, tidy⟩ := empty_holds before
  constructor
  · intro hresult
    have granted : (Request.method id m requested).isGranted
        ((empty.runAll before).run (.method id m requested)).result = true := by
      rw [hresult]
      rfl
    obtain ⟨checked, follows⟩ := (holds.isGranted_iff tidy).mp granted
    have hanswer := (holds.run_admitted tidy checked follows).1
    exact ⟨⟨checked, follows⟩, by simpa [Request.answer] using hresult.symm.trans hanswer⟩
  · rintro ⟨⟨checked, follows⟩, rfl⟩
    exact (holds.run_admitted tidy checked follows).1

theorem Declares.fact (h : Declares history m requested body after) :
    ∃ id, body = .start id m ((storedFlags m requested).contains .static) ∧
      .method ⟨id, m, storedFlags m requested⟩ ∈ empty.facts history := by
  obtain ⟨before, id, rfl, granted, hbody⟩ := declares_iff.mp h
  obtain ⟨holds, tidy⟩ := empty_holds before
  exact ⟨id, hbody, mem_facts.mpr
    ⟨before, _, after, rfl, (holds.fact?_eq_some tidy).mpr ⟨granted, rfl⟩⟩⟩

theorem Declares.callsOn (h : Declares history m requested body after) :
    callsOn (empty.facts history) m = after.filterMap (Request.callOn? m) := by
  obtain ⟨before, id, rfl, granted, -⟩ := declares_iff.mp h
  obtain ⟨holds, tidy⟩ := empty_holds before
  -- there are no calls before the declaration, and none that does not count after it
  have hfact := (holds.fact?_eq_some tidy).mpr ⟨granted, rfl⟩
  obtain ⟨hrun, htidy⟩ := holds.run tidy (.method id m requested)
  rw [hfact] at hrun htidy
  have hlater := hrun.callsOn_facts htidy (m := m) (by
    rw [methodsDeclared_append]
    exact List.mem_append_right _ List.mem_cons_self) after
  rw [facts_append, Draft.facts, callsOn_append, callsOn_append, tidy.callsOn_eq_nil granted.2,
    hlater, hfact]
  rfl

theorem declares_of_mem {x : MethodFact} (hx : .method x ∈ empty.facts history) :
    ∃ requested after, storedFlags x.id requested = x.flags ∧
      Declares history x.id requested (.start x.body x.id (x.flags.contains .static)) after := by
  obtain ⟨before, request, after, rfl, hfact⟩ := mem_facts.mp hx
  obtain ⟨holds, tidy⟩ := empty_holds before
  obtain ⟨granted, hsame⟩ := (holds.fact?_eq_some tidy).mp hfact
  cases request with
  | method id m requested =>
    obtain rfl := Fact.method.inj hsame
    exact ⟨requested, after, rfl, declares_iff.mpr ⟨before, id, rfl, granted, rfl⟩⟩
  | _ => cases hsame

/-- The draft has the body for the method, with flags that agree on whether it is static. -/
structure Keeps (d : Draft) (m : MethodId) (body : Assembler) : Prop where
  found : d.body? m = some body
  method : body.method = m
  stored : ∃ flags, (d.entry m.owner).methods.find? m = some ⟨flags, body⟩ ∧
    body.isStatic = flags.contains .static

theorem Holds.keeps (holds : d.Holds facts) (tidy : Tidy facts) {x : MethodFact}
    (hx : .method x ∈ facts) : d.Keeps x.id (bodyOf facts x) where
  found := by
    rw [holds.body?_eq tidy, tidy.methodOf?_eq_some.mpr hx]
    rfl
  method := (Assembler.runAll_steps _).sameMethod.method
  stored := by
    refine ⟨x.flags, ?_, (Assembler.runAll_steps _).sameMethod.isStatic⟩
    rw [holds.entry, tidy.find?_methods, tidy.methodOf?_eq_some.mpr hx]
    rfl

/-- Whatever calls were made on a new draft, its tables are in step with their indices. A method has a body
if and only if it was declared, and it is the one that the declaration started, after the calls on it; a
call on it changes nothing else. -/
theorem runAll_coherent (history : List Request) :
    let d := empty.runAll history
    d.Coherent ∧
    (∀ m, (d.body? m).isSome = true ↔
      ∃ requested body after, Declares history m requested body after) ∧
    (∀ m requested body after, Declares history m requested body after →
      d.Keeps m (body.runAll (after.filterMap (Request.callOn? m)))) ∧
    ∀ m operation,
      (d.run (.call m operation)).state = d.adjustBody m fun body => (body.run operation).state := by
  intro d
  obtain ⟨holds, tidy⟩ := empty_holds history
  have coherent := holds.coherent tidy
  have keeps {m requested body after} (h : Declares history m requested body after) :
      d.Keeps m (body.runAll (after.filterMap (Request.callOn? m))) := by
    obtain ⟨id, rfl, hfact⟩ := h.fact
    rw [← h.callsOn]
    exact holds.keeps tidy hfact
  refine ⟨coherent, fun m => ⟨fun h => ?_, ?_⟩, fun _ _ _ _ => keeps, coherent.run_call⟩
  · rw [holds.body?_eq tidy, Option.isSome_map] at h
    obtain ⟨x, hx⟩ := Option.isSome_iff_exists.mp h
    obtain rfl : x.id = m := by simpa using List.find?_some hx
    obtain ⟨requested, after, -, declares⟩ := declares_of_mem (tidy.methodOf?_eq_some.mp hx)
    exact ⟨requested, _, after, declares⟩
  · rintro ⟨requested, body, after, declares⟩
    rw [(keeps declares).found]
    rfl

end Draft
end Dalvik
