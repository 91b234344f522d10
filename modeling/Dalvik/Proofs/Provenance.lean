import Dalvik.Proofs.Handlers
import Dalvik.Proofs.Refusal

/-! Where labels in a body come from. The target of an instruction was named by a jump, a branch or a mark,
and the handler of a clause by the call that added the clause; and each of these calls succeeded. -/
namespace Dalvik

namespace Assembler

variable {a b : Assembler} {l : Label} {history rest : List Operation} {operation : Operation}
  {log : List Entry} {e : Entry}

def Granted (a : Assembler) (history : List Operation) (operation : Operation) : Prop :=
  ∃ before after reply, history = before ++ operation :: after ∧
    ((a.runAll before).run operation).result = .ok reply

theorem granted_head {reply : Reply} (h : (a.run operation).result = .ok reply) :
    a.Granted (operation :: rest) operation :=
  ⟨[], rest, reply, rfl, h⟩

theorem Granted.cons {first : Operation} (h : (a.run first).state.Granted rest operation) :
    a.Granted (first :: rest) operation := by
  obtain ⟨before, after, reply, rfl, hreply⟩ := h
  exact ⟨first :: before, after, reply, rfl, hreply⟩

theorem mem_clausesAfter {clauses : List CatchClause} {clause : CatchClause}
    {result : Except Error Reply} (h : clause ∈ clausesAfter clauses operation result) :
    clause ∈ clauses ∨
      operation = .addCatch clause.exception clause.handler ∧ ∃ reply, result = .ok reply := by
  cases operation with
  | addCatch exception handler =>
    cases result with
    | error => exact .inl h
    | ok reply =>
      obtain rfl | h := List.mem_cons.mp h
      · exact .inr ⟨rfl, reply, rfl⟩
      · exact .inl h
  | removeCatch exception =>
    cases result with
    | error => exact .inl h
    | ok reply => exact .inl (List.mem_of_mem_filter h)
  | _ => exact .inl h

theorem granted_of_clause {clauses : List CatchClause} {c : Covered}
    (hc : c ∈ a.covered clauses history) {clause : CatchClause} (h : clause ∈ c.clauses) :
    clause ∈ clauses ∨ a.Granted history (.addCatch clause.exception clause.handler) := by
  induction history generalizing a clauses with
  | nil => cases hc
  | cons operation rest ih =>
    obtain hc | hc := List.mem_append.mp hc
    · obtain ⟨e, -, rfl⟩ := List.mem_map.mp hc
      exact .inl h
    · obtain hclause | granted := ih hc
      · obtain hclause | ⟨rfl, reply, hreply⟩ := mem_clausesAfter hclause
        · exact .inl hclause
        · exact .inr (granted_head hreply)
      · exact .inr granted.cons

/-- The calls that name a label, and the instructions that they append. -/
inductive Names (l : Label) : Operation → Instruction Local → Prop
  | jump : Names l (.jump l) .goto
  | mark : Names l (.mark l) .goto
  | branch (comparison : Comparison) (x : Local) (y : Option Local) :
      Names l (.branch comparison l x y) (.branch comparison x y)

theorem append_logs (i : Instruction Local) (target : Option Label) :
    (∃ e, a.append i target = .fail a e) ∨ (a.append i target).result = .ok () ∧
      ∃ m, entries (a.append i target).events = [⟨m, i, target⟩] := by
  obtain hfail | ⟨m, -, -, h⟩ := append_cases (a := a) i target
  · exact .inl hfail
  · rw [h, Outcome.note]
    exact .inr ⟨route_result m i target, m, entries_appended m i target⟩

theorem append_entry {i : Instruction Local} {target : Option Label}
    (he : e ∈ entries (a.append i target).events) :
    (e.instruction = i ∧ e.target = target) ∧ (a.append i target).result = .ok () ∧
      entries (a.append i target).events = [e] := by
  obtain ⟨e', hfail⟩ | ⟨hresult, m, hentries⟩ := append_logs (a := a) i target
  · rw [hfail] at he
    cases he
  · rw [hentries] at he ⊢
    obtain rfl := List.mem_singleton.mp he
    exact ⟨⟨rfl, rfl⟩, hresult, rfl⟩

theorem appendTo_entry {m : Label} {i : Instruction Local}
    (he : e ∈ entries (a.appendTo m i).events) :
    (e.instruction = i ∧ e.target = some m) ∧ (a.appendTo m i).result = .ok () ∧
      entries (a.appendTo m i).events = [e] := by
  unfold appendTo at he ⊢
  cases hadopt : a.adopt m with
  | error e' =>
    rw [hadopt] at he
    cases he
  | ok b =>
    rw [hadopt] at he
    exact append_entry he

theorem run_names (he : e ∈ entries (a.run operation).events) (ht : e.target = some l) :
    Names l operation e.instruction ∧ (a.run operation).result = .ok .done ∧
      entries (a.run operation).events = [e] := by
  cases operation with
  | jump m =>
    obtain ⟨⟨hinstruction, htarget⟩, hresult, hentries⟩ := appendTo_entry he
    obtain rfl : m = l := Option.some.inj (htarget.symm.trans ht)
    rw [hinstruction]
    exact ⟨.jump, by simp [run, jump, Outcome.map, hresult, Except.map], hentries⟩
  | branch comparison m x y =>
    obtain ⟨e', hfail⟩ | ⟨-, hbranch⟩ := branch_cases (a := a) comparison m x y
    · simp only [run, hfail] at he
      cases he
    · simp only [run, hbranch] at he ⊢
      obtain ⟨⟨hinstruction, htarget⟩, hresult, hentries⟩ := appendTo_entry he
      obtain rfl : m = l := Option.some.inj (htarget.symm.trans ht)
      rw [hinstruction]
      exact ⟨.branch comparison x y, by simp [Outcome.map, hresult, Except.map], hentries⟩
  | mark m =>
    obtain ⟨e', h⟩ | ⟨b, -, ⟨-, h⟩ | ⟨-, ⟨-, h⟩ | ⟨c, -, h⟩⟩⟩ := mark_cases (a := a) m
    all_goals simp only [run, h] at he ⊢
    · cases he
    · cases he
    · cases he
    · obtain rfl : e = ⟨c, .goto, some m⟩ := List.mem_singleton.mp he
      obtain rfl : m = l := Option.some.inj ht
      exact ⟨.mark, rfl, rfl⟩
  | emit statement =>
    -- the instructions of a statement refer to no label
    obtain ⟨c, -, emits⟩ := Steps.emits (run_leads (a := a) (.emit statement)) e he
    obtain ⟨e', h⟩ | ⟨is, admitted, h⟩ := emit_cases (a := a) statement
    · simp only [run, h] at he
      cases he
    · simp only [run, h] at he
      have labelled := emits.labelled
      rw [(admitted _ (appendAll_entries e he)).unlabelled, ht] at labelled
      cases labelled
  | _ =>
    rw [entries_of_not_appends rfl] at he
    cases he

theorem log_cons : a.log (operation :: rest) =
    entries (a.run operation).events ++ (a.run operation).state.log rest := by
  simp only [log, journal, entries_append]

theorem exists_call (he : e ∈ a.log history) (ht : e.target = some l) :
    ∃ before operation after, history = before ++ operation :: after ∧
      Names l operation e.instruction ∧ ((a.runAll before).run operation).result = .ok .done ∧
      entries ((a.runAll before).run operation).events = [e] ∧
      a.log history = a.log before ++ e :: ((a.runAll before).run operation).state.log after := by
  induction history generalizing a with
  | nil => cases he
  | cons operation rest ih =>
    rw [log_cons] at he ⊢
    obtain he | he := List.mem_append.mp he
    · obtain ⟨names, hresult, hentries⟩ := run_names he ht
      refine ⟨[], operation, rest, rfl, names, hresult, hentries, ?_⟩
      rw [hentries]
      rfl
    · obtain ⟨before, call, after, rfl, names, hresult, hentries, hlog⟩ := ih he
      refine ⟨operation :: before, call, after, rfl, names, hresult, hentries, ?_⟩
      rw [hlog, log_cons, List.append_assoc]
      rfl

theorem Step.current_silent (step : Step a none b) (h : a.current = some l) : b.current = some l := by
  cases step with
  | enter m closed => simp [closed] at h
  | assign frame moves =>
    change (a.prepend moves).current = some l
    unfold prepend
    split <;> exact h
  | _ => exact h

theorem Steps.continues_open (steps : Steps a log b) (h : a.current = some l) :
    b.continuation log = some l := by
  induction steps with
  | refl => exact h
  | @tail b c log entry steps step ih =>
    cases entry with
    | none =>
      rw [Option.toList_none, List.append_nil]
      cases log with
      | nil => exact step.current_silent ih
      | cons => exact ih
    | some e =>
      cases step with
      | append m i target current => exact (continuation_concat current).trans ih

/-- A block that was opened by a mark has no code before, and a jump that the mark appended leads to it
from another block. -/
theorem Sound.mark_entry (sound : a.Sound) (traced : a.Traced log) (he : e ∈ entries (a.mark l).events) :
    (∀ d ∈ log ++ [e], d.block ≠ l) ∧ (a.mark l).state.current = some l := by
  obtain ⟨e', h⟩ | ⟨b, hadopt, ⟨-, h⟩ | ⟨unmarked, ⟨-, h⟩ | ⟨c, current, h⟩⟩⟩ := mark_cases (a := a) l
  all_goals rw [h] at he
  · cases he
  · cases he
  · cases he
  · obtain ⟨steady, uses⟩ := adopt_ok hadopt
    have sound' := steady.steps.sound sound
    obtain ⟨before, run, after, spans⟩ := (steady.steps.traced sound traced).spans l uses.1
    have hcode := spans.code
    rw [(sound'.blank uses.1 unmarked).code] at hcode
    have hrun : run = [] := by simpa using (List.append_eq_nil_iff.mp hcode.symm).2
    obtain rfl : e = ⟨c, .goto, some l⟩ := List.mem_singleton.mp he
    rw [h]
    refine ⟨?_, rfl⟩
    intro d hd
    obtain hd | rfl := List.mem_append.mp hd |>.imp_right List.mem_singleton.mp
    · apply spans.outside d
      rw [← List.append_nil log, spans.split, hrun] at hd
      simpa using hd
    · intro hc
      have hmarked := (sound'.open_current current).marked
      rw [show c = l from hc, unmarked] at hmarked
      cases hmarked

/-- An instruction refers to a label because a jump or branch named it. Otherwise a mark did, and then the
code of the label starts right after a jump. -/
theorem granted_of_target (sound : a.Sound) (traced : a.Traced []) (he : e ∈ a.log history)
    (ht : e.target = some l) :
    (e.instruction = .goto ∧ a.Granted history (.jump l)) ∨
    (∃ comparison x y, e.instruction = .branch comparison x y ∧
      a.Granted history (.branch comparison l x y)) ∨
    e.instruction = .goto ∧ ∀ j, start? (a.log history) l = some j →
      ∃ i d, j = i + 1 ∧ (a.log history)[i]? = some d ∧ d.instruction = .goto := by
  obtain ⟨before, operation, after, rfl, names, hresult, hentries, hlog⟩ := exists_call he ht
  generalize hi : e.instruction = i at names
  cases names with
  | jump => exact .inl ⟨rfl, before, after, .done, rfl, hresult⟩
  | branch comparison x y =>
    exact .inr (.inl ⟨comparison, x, y, rfl, before, after, .done, rfl, hresult⟩)
  | mark =>
    refine .inr (.inr ⟨rfl, fun j hj => ⟨(a.log before).length, e, ?_, by simp [hlog], hi⟩⟩)
    have steps := runAll_steps (a := a) before
    have hentry : e ∈ entries ((a.runAll before).mark l).events := by
      change e ∈ entries ((a.runAll before).run (.mark l)).events
      simp [hentries]
    obtain ⟨unvisited, opened⟩ :=
      (steps.sound sound).mark_entry (by simpa using steps.traced sound traced) hentry
    have hnext := (runAll_steps (a := ((a.runAll before).run (.mark l)).state) after).continues_open
      opened
    have hnone : (a.log before ++ [e]).findIdx? (·.block = l) = none := by
      rw [List.findIdx?_eq_none_iff]
      intro d hd
      simpa using unvisited d hd
    rw [start?, hlog, List.append_cons, List.findIdx?_append, hnone] at hj
    cases hsuffix : ((a.runAll before).run (.mark l)).state.log after with
    | nil => simp [hsuffix] at hj
    | cons d rest =>
      have hd : d.block = l := by
        rw [hsuffix] at hnext
        exact Option.some.inj hnext
      simpa [hsuffix, List.findIdx?_cons, hd] using hj.symm

section Finished

variable {body : MethodBody} {block b : BasicBlock} {k q : Nat} {before run after : List Entry}
  {cover : List Covered}

theorem Lies.getLast? (lies : Lies a log body l k block before (run ++ [e]) after) :
    ∃ r, e.instruction.traverse a.register = .ok r ∧ block.instructions.getLast? = some r := by
  obtain ⟨r, htraverse, hr⟩ := lies.exists_at? (e := e) (n := run.length) (by simp)
  refine ⟨r, htraverse, ?_⟩
  rw [List.getLast?_eq_getElem?, lies.length, List.length_append, List.length_singleton,
    ← Nat.add_assoc, Nat.add_sub_cancel]
  simpa [MethodBody.at?, lies.placed] using hr

variable (done : a.Completes body) (sound : a.Sound) (traced : a.Traced log)
include done sound traced

omit done traced in
theorem number_of_getElem? (hk : a.surviving[k]? = some l) : a.surviving.idxOf? l = some k :=
  (idxOf?_eq_some_iff_getElem? (nodup_surviving sound)).mpr hk

theorem exists_lies_of_block (hq : body.blocks[q]? = some b) : ∃ m before run e after,
    Lies a log body m q b before (run ++ [e]) after ∧ (a.block m).Exits e.instruction := by
  obtain ⟨m, hm, -⟩ := done.block_iff.mp hq
  obtain ⟨b', before, run, after, lies⟩ := done.lies sound traced hm
  obtain rfl : b = b' := Option.some.inj (hq.symm.trans lies.placed)
  obtain ⟨run, e, rfl⟩ := (List.eq_nil_or_concat' run).resolve_left lies.nonempty
  exact ⟨m, before, run, e, after, lies,
    (lies.spans.ends (done.closed sound (List.mem_of_getElem? hm))).2⟩

/-- A block goes on in the block of a label because it ends with a jump there, or because the code of the
label comes next. -/
theorem primary_edge (lies : Lies a log body l k block before run after)
    (hq : body.blocks[q]? = some b) (hb : b.primary = some k) :
    (∃ e ∈ log, e.target = some l ∧ e.instruction = .goto ∧
        b.instructions.getLast? = some .goto) ∨
      ∃ i d, before.length = i + 1 ∧ log[i]? = some d ∧ a.surviving[q]? = some d.block := by
  obtain ⟨m, before', run', e, after', lies', -⟩ := exists_lies_of_block done sound traced hq
  rw [lies'.primary, Option.bind_eq_some_iff] at hb
  obtain ⟨s, hs, hnumber⟩ := hb
  obtain rfl : s = l := label_eq_of_number sound hnumber (number_of_getElem? sound lies.number)
  have linked := lies'.spans.linked e (by simp)
  have he : log[before'.length + run'.length]? = some e :=
    (lies'.spans.getElem?_run (by simp)).trans List.getElem?_concat_length
  by_cases hflow : e.instruction.flow = .goto
  · obtain ⟨r, htraverse, hlast⟩ := lies'.getLast?
    have hgoto : e.instruction = .goto := Instruction.flow_eq_iff.mp hflow
    rw [hgoto] at htraverse
    obtain rfl := pure_eq_ok.mp htraverse
    exact .inl ⟨e, List.mem_of_getElem? he, (linked.goto hflow).symm.trans hs, hgoto, hlast⟩
  · have hstart := start_of_continuation done sound traced lies'.spans (linked.through hflow s hs)
      (List.mem_of_getElem? lies.number)
    rw [lies.spans.start lies.nonempty] at hstart
    refine .inr ⟨_, e, Option.some.inj hstart, he, ?_⟩
    rw [lies'.spans.inside e (by simp)]
    exact lies'.number

theorem alternate_edge (hk : a.surviving[k]? = some l) (hq : body.blocks[q]? = some b)
    (hb : b.alternate = some k) : ∃ e ∈ log, e.target = some l ∧ e.instruction.flow = .branch ∧
      ∃ r, b.instructions.getLast? = some r ∧ r.flow = .branch := by
  obtain ⟨m, before, run, e, after, lies, hexits⟩ := exists_lies_of_block done sound traced hq
  rw [lies.alternate, Option.bind_eq_some_iff] at hb
  obtain ⟨s, hs, hnumber⟩ := hb
  obtain rfl : s = l := label_eq_of_number sound hnumber (number_of_getElem? sound hk)
  have hflow : e.instruction.flow = .branch := by
    unfold DraftBlock.Exits at hexits
    cases hflow : e.instruction.flow with
    | branch => rfl
    | _ => simp [hflow, hs] at hexits
  have linked := lies.spans.linked e (by simp)
  obtain ⟨r, htraverse, hlast⟩ := lies.getLast?
  exact ⟨e, (lies.spans.mem_run_iff.mp (by simp)).1, (linked.branch hflow).symm.trans hs, hflow,
    r, hlast, (Instruction.flow_of_traverse htraverse).trans hflow⟩

omit traced in
theorem handler_edge (traced : a.Traced (cover.map Covered.entry)) (shielded : a.Shielded cover)
    (hk : a.surviving[k]? = some l) (hq : body.blocks[q]? = some b) {h : Handler}
    (hh : h ∈ b.handlers) (hb : h.block = k) : ∃ c ∈ cover, ⟨h.exception, l⟩ ∈ c.clauses := by
  obtain ⟨m, before, run, e, after, lies, -⟩ := exists_lies_of_block done sound traced hq
  rw [lies.handlers done] at hh
  obtain ⟨⟨exception, handler⟩, hclause, hnumber, hexception⟩ := mem_handlers.mp hh
  rw [hb] at hnumber
  obtain rfl : handler = l := label_eq_of_number sound hnumber (number_of_getElem? sound hk)
  obtain rfl : exception = h.exception := hexception
  have he : (cover.map Covered.entry)[before.length + run.length]? = some e :=
    (lies.spans.getElem?_run (by simp)).trans List.getElem?_concat_length
  rw [List.getElem?_map, Option.map_eq_some_iff] at he
  obtain ⟨c, hc, rfl⟩ := he
  rw [shielded.handlers_of_last sound lies hc (lies.spans.inside _ (by simp)), Covered.handlers] at hclause
  refine ⟨c, List.mem_of_getElem? hc, ?_⟩
  split at hclause
  · exact hclause
  · cases hclause

end Finished

end Assembler
end Dalvik
