import Dalvik.Proofs.Refinement
import Mathlib.Data.List.Induction

/-! Exception edges. An instruction that can throw inside a catch clause ends its block, and the block
has a handler for each clause that was in force when the instruction was appended, the latest clause
first. Clauses that are added or removed afterwards make no difference to it. -/
namespace Dalvik

/-- An instruction as it was appended, with the clauses in force at that time, the latest first. -/
structure Covered where
  entry : Entry
  clauses : List CatchClause
  deriving DecidableEq

namespace Covered

def isCaught (c : Covered) : Bool := c.entry.instruction.canThrow && !c.clauses.isEmpty

def handlers (c : Covered) : List CatchClause :=
  if c.entry.instruction.canThrow then c.clauses else []

theorem handlers_of_isCaught {c : Covered} (h : c.isCaught = true) :
    c.handlers = c.clauses ∧ c.clauses ≠ [] := by
  simp only [isCaught, Bool.and_eq_true, Bool.not_eq_true', List.isEmpty_eq_false_iff] at h
  simp [handlers, h]

theorem handlers_of_not_isCaught {c : Covered} (h : c.isCaught = false) : c.handlers = [] := by
  simp only [isCaught, Bool.and_eq_false_iff, Bool.not_eq_false', List.isEmpty_iff] at h
  unfold handlers
  split
  · simp_all
  · rfl

end Covered

def lastIn? (log : List Covered) (l : Label) : Option Covered :=
  log.reverse.find? (·.entry.block = l)

theorem lastIn?_concat (log : List Covered) (c : Covered) (l : Label) :
    lastIn? (log ++ [c]) l = if c.entry.block = l then some c else lastIn? log l := by
  unfold lastIn?
  rw [List.reverse_append, List.reverse_singleton, List.singleton_append, List.find?_cons]
  by_cases h : c.entry.block = l <;> simp [h]

theorem lastIn?_eq_none {log : List Covered} {l : Label} (h : ∀ c ∈ log, c.entry.block ≠ l) :
    lastIn? log l = none := by
  simpa [lastIn?, List.find?_eq_none] using h

theorem lastIn?_eq_some {log : List Covered} {i : Nat} {c : Covered} (hc : log[i]? = some c)
    (hlast : ∀ j d, i < j → log[j]? = some d → d.entry.block ≠ c.entry.block) :
    lastIn? log c.entry.block = some c := by
  induction log using List.reverseRecOn with
  | nil => simp at hc
  | append_singleton log e ih =>
    have hi : i ≤ log.length := by
      have := (List.getElem?_eq_some_iff.mp hc).1
      simp at this
      omega
    rw [lastIn?_concat]
    by_cases hlt : i < log.length
    · have he : e.entry.block ≠ c.entry.block := hlast log.length e hlt List.getElem?_concat_length
      rw [if_neg he]
      apply ih
      · rwa [List.getElem?_append_left hlt] at hc
      · intro j d hij hd
        apply hlast j d hij
        rwa [List.getElem?_append_left (List.getElem?_eq_some_iff.mp hd).1]
    · obtain rfl : i = log.length := by omega
      obtain rfl : e = c := by simpa using hc
      rw [if_pos rfl]

namespace Instruction

theorem canThrow_of_raise [Typed R] {i : Instruction R} (h : i.flow = .raise) :
    i.canThrow = true := by
  obtain ⟨value, rfl⟩ := flow_eq_iff.mp h
  rfl

theorem flow_of_canThrow [Typed R] {i : Instruction R} (h : i.canThrow = true) :
    i.flow = .next ∨ i.flow = .raise := by
  cases i with
  | raise value => exact .inr rfl
  | goto => cases h
  | branch comparison a b => cases h
  | returnVoid => cases h
  | returnValue value => cases h
  | _ => exact .inl rfl

end Instruction

namespace Assembler

variable {a b : Assembler} {l : Label} {log : List Covered}

def clausesAfter (clauses : List CatchClause) : Operation → Except Error Reply → List CatchClause
  | .addCatch exception handler, .ok _ => ⟨exception, handler⟩ :: clauses
  | .removeCatch exception, .ok _ => clauses.filter (·.exception ≠ exception)
  | _, _ => clauses

/-- The instructions that a history appends, in order, with the clauses that were added before each of
them and not removed. -/
def covered (a : Assembler) (clauses : List CatchClause) : List Operation → List Covered
  | [] => []
  | operation :: rest =>
    (entries (a.run operation).events).map (⟨·, clauses⟩) ++
      (a.run operation).state.covered (clausesAfter clauses operation (a.run operation).result) rest

theorem covered_entries (clauses : List CatchClause) (history : List Operation) :
    (a.covered clauses history).map Covered.entry = a.log history := by
  induction history generalizing a clauses with
  | nil => rfl
  | cons operation rest ih =>
    simp only [covered, log, journal, entries_append, List.map_append, List.map_map, ih]
    congr 1
    exact List.map_id _

/-- The handlers of each block are those of the instruction that it ends with so far, and nothing
follows an instruction that is caught. -/
structure Shielded (a : Assembler) (log : List Covered) : Prop where
  owned : ∀ c ∈ log, a.ownsLabel c.entry.block = true
  handlers : ∀ l, a.ownsLabel l = true →
    (a.block l).handlers = ((lastIn? log l).map Covered.handlers).getD []
  last : log.Pairwise fun c d => c.isCaught = true → d.entry.block ≠ c.entry.block

theorem start_shielded (body : BodyId) (method : MethodId) (isStatic : Bool) :
    (start body method isStatic).Shielded [] where
  owned := by simp
  handlers := by
    intro l owned
    obtain rfl := (ownsLabel_start body method isStatic).mp owned
    rw [block_start]
    rfl
  last := .nil

namespace Shielded

theorem congr (shielded : a.Shielded log) (howned : ∀ l, b.ownsLabel l = a.ownsLabel l)
    (hhandlers : ∀ l, (b.block l).handlers = (a.block l).handlers) : b.Shielded log where
  owned := by
    intro c hc
    rw [howned]
    exact shielded.owned c hc
  handlers := by
    intro l owned
    rw [hhandlers]
    exact shielded.handlers l ((howned l).symm.trans owned)
  last := shielded.last

theorem label (shielded : a.Shielded log) : (a.grow {}).Shielded log where
  owned := fun c hc => ownsLabel_grow.mpr (.inl (shielded.owned c hc))
  handlers := by
    intro l owned
    obtain howned | rfl := ownsLabel_grow.mp owned
    · rw [block_grow_of_owned howned]
      exact shielded.handlers l howned
    · rw [block_grow_fresh, lastIn?_eq_none fun c hc => ne_freshLabel (shielded.owned c hc)]
      rfl
  last := shielded.last

theorem lastIn?_of_isCaught (shielded : a.Shielded log) {i : Nat} {c : Covered}
    (hc : log[i]? = some c) (caught : c.isCaught = true) : lastIn? log c.entry.block = some c := by
  apply lastIn?_eq_some hc
  intro j d hij hd
  obtain ⟨hi, rfl⟩ := List.getElem?_eq_some_iff.mp hc
  obtain ⟨hj, rfl⟩ := List.getElem?_eq_some_iff.mp hd
  exact List.pairwise_iff_getElem.mp shielded.last i j hi hj hij caught

theorem ne_current (shielded : a.Shielded log) (sound : a.Sound) (hcurrent : a.current = some l)
    {c : Covered} (hc : c ∈ log) (caught : c.isCaught = true) : l ≠ c.entry.block := by
  rintro rfl
  obtain ⟨i, hi⟩ := List.getElem?_of_mem hc
  have hhandlers := shielded.handlers _ (shielded.owned c hc)
  rw [(sound.open_current hcurrent).handlers, shielded.lastIn?_of_isCaught hi caught] at hhandlers
  obtain ⟨hclauses, hne⟩ := Covered.handlers_of_isCaught caught
  exact hne (hclauses.symm.trans hhandlers.symm)

end Shielded

theorem exits_handlers (i : Instruction Local) (target : Option Label) :
    (a.exits i target).handlers = if i.canThrow then a.catches else [] := by
  cases hthrows : i.canThrow with
  | true =>
    obtain hflow | hflow := Instruction.flow_of_canThrow hthrows
    · cases hcatches : a.catches <;> simp [exits, hflow, guards, hthrows, hcatches]
    · simp [exits, hflow]
  | false =>
    cases hflow : i.flow with
    | next => simp [exits, hflow, guards, hthrows]
    | raise => simp [Instruction.canThrow_of_raise hflow] at hthrows
    | goto => simp [exits, hflow]
    | branch => simp [exits, hflow]
    | leave => simp [exits, hflow]

theorem Shielded.append {i : Instruction Local} {target : Option Label} (shielded : a.Shielded log)
    (sound : a.Sound) (hcurrent : a.current = some l) (appended : Appended a l i target b) :
    b.Shielded (log ++ [⟨⟨l, i, target⟩, a.catches⟩]) where
  owned := by
    intro c hc
    rw [appended.owned]
    obtain hc | rfl := List.mem_append.mp hc |>.imp_right List.mem_singleton.mp
    · exact .inl (shielded.owned c hc)
    · exact .inl (sound.current l hcurrent).1
  handlers := by
    intro m owned
    rw [lastIn?_concat]
    obtain howned | ⟨hforks, rfl⟩ := (appended.owned m).mp owned
    · by_cases hm : l = m
      · subst m
        rw [if_pos rfl, appended.block]
        exact exits_handlers i target
      · rw [if_neg hm, appended.others m howned (Ne.symm hm)]
        exact shielded.handlers m howned
    · rw [if_neg (ne_freshLabel (sound.current l hcurrent).1), appended.fresh hforks,
        lastIn?_eq_none fun c hc => ne_freshLabel (shielded.owned c hc)]
      rfl
  last := by
    rw [List.pairwise_append]
    refine ⟨shielded.last, List.pairwise_singleton _ _, ?_⟩
    intro c hc d hd caught
    obtain rfl := List.mem_singleton.mp hd
    exact shielded.ne_current sound hcurrent hc caught

theorem Step.shielded_silent (step : Step a none b) (sound : a.Sound) (shielded : a.Shielded log) :
    b.Shielded log := by
  cases step with
  | label => exact shielded.label
  | newLocal type => exact shielded.congr (fun _ => rfl) fun _ => rfl
  | adopt l owned unused =>
    have edited : Edited a l ({ · with adopted := true })
      { a.editBlock l ({ · with adopted := true }) with order := a.order.push l } := ⟨rfl, rfl, rfl⟩
    exact shielded.congr (fun _ => edited.ownsLabel)
      fun _ => edited.observe DraftBlock.handlers fun _ => rfl
  | enter l closed uses unmarked =>
    have edited : Edited a l ({ · with marked := true })
      { a.editBlock l ({ · with marked := true }) with current := some l } := ⟨rfl, rfl, rfl⟩
    exact shielded.congr (fun _ => edited.ownsLabel)
      fun _ => edited.observe DraftBlock.handlers fun _ => rfl
  | protect clause => exact shielded.congr (fun _ => rfl) fun _ => rfl
  | expose exception => exact shielded.congr (fun _ => rfl) fun _ => rfl
  | assign frame moves unassigned layout =>
    simp only [prepend, sound.entry]
    have edited : Edited a ⟨a.body, 0⟩ (fun d => { d with instructions := moves ++ d.instructions })
      { a.editBlock ⟨a.body, 0⟩ fun d => { d with instructions := moves ++ d.instructions } with
        frame := some frame } := ⟨rfl, rfl, rfl⟩
    exact shielded.congr (fun _ => edited.ownsLabel)
      fun _ => edited.observe DraftBlock.handlers fun _ => rfl

theorem Steps.shielded_silent {appended : List Entry} (steps : Steps a appended b)
    (silent : appended = []) (sound : a.Sound) (shielded : a.Shielded log) : b.Shielded log := by
  induction steps with
  | refl => exact shielded
  | @tail b c appended entry steps step ih =>
    obtain ⟨rfl, hentry⟩ := List.append_eq_nil_iff.mp silent
    cases entry with
    | none => exact step.shielded_silent (steps.sound sound) (ih rfl)
    | some e => cases hentry

/-- While the clauses stay the same, whatever is appended is covered by them. -/
theorem Steady.shielded {appended : List Entry} (steady : Steady a appended b) (sound : a.Sound)
    (shielded : a.Shielded log) : b.Shielded (log ++ appended.map (⟨·, a.catches⟩)) := by
  induction steady with
  | refl => simpa using shielded
  | @tail b c appended entry steady step _ ih =>
    have sound := steady.steps.sound sound
    rw [List.map_append, ← List.append_assoc, ← steady.catches]
    rw [← steady.catches] at ih
    cases entry with
    | none => simpa using step.shielded_silent sound ih
    | some e =>
      cases step with
      | append l i target current => exact ih.append sound current (sound.appended current)

theorem eraseP_eq_filter {clauses : List CatchClause} (apart : CatchClause.Apart clauses)
    (exception : Ty) : clauses.eraseP (·.exception == exception) =
      clauses.filter (·.exception ≠ exception) := by
  have distinct := apart.distinct
  clear apart
  induction clauses with
  | nil => rfl
  | cons c clauses ih =>
    obtain ⟨hc, hrest⟩ := List.pairwise_cons.mp distinct
    by_cases h : c.exception = exception
    · subst h
      have hkept : clauses.filter (·.exception ≠ c.exception) = clauses := by
        rw [List.filter_eq_self]
        intro d hd
        simpa using (hc d hd).symm
      simp only [ne_eq, decide_not] at hkept
      simp [hkept]
    · simpa [h] using ih hrest

/-- The clauses that a body works with are those that were added and not removed. -/
theorem Sound.run_clauses (sound : a.Sound) (operation : Operation) :
    (a.run operation).state.catches =
      clausesAfter a.catches operation (a.run operation).result := by
  cases operation with
  | addCatch exception handler =>
    simp only [run, Outcome.map, addCatch]
    split
    · rfl
    · split
      · rfl
      · split
        · rfl
        · rename_i b hadopt
          have hcatches := (adopt_ok hadopt).1.catches
          simp [Outcome.ok, Except.map, clausesAfter, hcatches]
  | removeCatch exception =>
    simp only [run, Outcome.map, removeCatch]
    split
    · rfl
    · exact eraseP_eq_filter sound.apart exception
  | _ => exact (run_performs rfl).catches

theorem Sound.run_shielded (sound : a.Sound) (operation : Operation) (shielded : a.Shielded log) :
    (a.run operation).state.Shielded
      (log ++ (entries (a.run operation).events).map (⟨·, a.catches⟩)) := by
  cases h : operation.isCatch with
  | false => exact Steady.shielded (run_performs h) sound shielded
  | true =>
    obtain ⟨hevents, steps⟩ := run_silent (a := a) h
    rw [hevents]
    simpa [entries] using steps.shielded_silent rfl sound shielded

theorem Sound.runAll_shielded (sound : a.Sound) (shielded : a.Shielded log)
    (history : List Operation) :
    (a.runAll history).Shielded (log ++ a.covered a.catches history) := by
  induction history generalizing a log with
  | nil => simpa [covered, runAll] using shielded
  | cons operation rest ih =>
    have hrun : a.runAll (operation :: rest) = (a.run operation).state.runAll rest := rfl
    rw [hrun, covered, ← sound.run_clauses, ← List.append_assoc]
    exact ih (Steps.sound (run_leads operation) sound) (sound.run_shielded operation shielded)

end Assembler

theorem MethodBody.block_of_settle {body : MethodBody} {p q : Position}
    (h : body.settle p = some q) : q.block = p.block := by
  obtain ⟨b, -, h⟩ := Option.bind_eq_some_iff.mp h
  obtain ⟨n, -, rfl⟩ := Option.map_eq_some_iff.mp h
  rfl

/-- A handler for the exceptions of a clause: it is the block of the clause's label and starts with the
first instruction that was appended to that label. -/
def Handles (log : List Entry) (body : MethodBody) (image : Nat → Position) (clause : CatchClause)
    (handler : Handler) : Prop :=
  handler.exception = clause.exception ∧
    ∃ j, start? log clause.handler = some j ∧ handler.block = (image j).block ∧
      body.settle ⟨handler.block, 0⟩ = some (image j)

structure Shields (log : List Covered) (body : MethodBody) (image : Nat → Position) : Prop where
  caught : ∀ i c, log[i]? = some c → c.isCaught = true →
    ∃ block, body.blocks[(image i).block]? = some block ∧
      (image i).offset + 1 = block.instructions.length ∧
        List.Forall₂ (Handles (log.map Covered.entry) body image) c.clauses block.handlers
  uncaught : ∀ k block, body.blocks[k]? = some block →
    ∃ i c, log[i]? = some c ∧ image i = ⟨k, block.instructions.length - 1⟩ ∧
      (c.isCaught = false → block.handlers = [])

namespace Assembler

variable {a : Assembler} {l : Label} {log before run after : List Entry} {cover : List Covered}
  {body : MethodBody} {block : BasicBlock} {k n i : Nat} {e : Entry} {c : Covered}

theorem Lies.handlers (lies : Lies a log body l k block before run after) (done : a.Completes body) :
    block.handlers = (a.block l).handlers.filterMap fun clause =>
      (a.surviving.idxOf? clause.handler).map fun block => ⟨clause.exception, block⟩ := by
  obtain ⟨l', hl', hblock⟩ := done.block_iff.mp lies.placed
  obtain rfl : l = l' := Option.some.inj (lies.number.symm.trans hl')
  obtain ⟨is, -, rfl⟩ := finishBlock_eq_ok.mp hblock
  rfl

theorem forall₂_handlers {P : CatchClause → Handler → Prop} {labels : List Label}
    {clauses : List CatchClause}
    (h : ∀ c ∈ clauses, ∃ n, labels.idxOf? c.handler = some n ∧ P c ⟨c.exception, n⟩) :
    List.Forall₂ P clauses
      (clauses.filterMap fun c => (labels.idxOf? c.handler).map fun n => ⟨c.exception, n⟩) := by
  induction clauses with
  | nil => exact .nil
  | cons c clauses ih =>
    obtain ⟨n, hn, hP⟩ := h c List.mem_cons_self
    rw [List.filterMap_cons, hn]
    exact .cons hP (ih fun d hd => h d (List.mem_cons_of_mem c hd))

theorem Shielded.length_of_isCaught (shielded : a.Shielded cover)
    (lies : Lies a (cover.map Covered.entry) body c.entry.block k block before run after)
    (hc : cover[before.length + n]? = some c) (caught : c.isCaught = true) (hn : n < run.length) :
    run.length = n + 1 := by
  by_contra hne
  have hlt : n + 1 < run.length := by omega
  have hnext := lies.spans.getElem?_run hlt
  rw [List.getElem?_map, List.getElem?_eq_getElem hlt, Option.map_eq_some_iff] at hnext
  obtain ⟨d, hd, hentry⟩ := hnext
  obtain ⟨hi, rfl⟩ := List.getElem?_eq_some_iff.mp hc
  obtain ⟨hj, rfl⟩ := List.getElem?_eq_some_iff.mp hd
  apply List.pairwise_iff_getElem.mp shielded.last _ _ hi hj (by omega) caught
  rw [hentry]
  exact lies.spans.inside _ (List.getElem_mem hlt)

theorem Shielded.handlers_of_last (shielded : a.Shielded cover) (sound : a.Sound)
    (lies : Lies a (cover.map Covered.entry) body l k block before (run ++ [e]) after)
    (hc : cover[before.length + run.length]? = some c) (hl : c.entry.block = l) :
    (a.block l).handlers = c.handlers := by
  have uses := ((mem_surviving sound).mp (List.mem_of_getElem? lies.number)).1
  have hlast : lastIn? cover c.entry.block = some c := by
    apply lastIn?_eq_some hc
    intro j d hj hd hblock
    have hentry : (cover.map Covered.entry)[j]? = some d.entry := by rw [List.getElem?_map, hd]; rfl
    obtain ⟨n, rfl, hn⟩ := lies.spans.exists_of_getElem? hentry (hblock.trans hl)
    have hlt := (List.getElem?_eq_some_iff.mp hn).1
    simp only [List.length_append, List.length_singleton] at hlt
    omega
  rw [shielded.handlers l uses.1, ← hl, hlast]
  rfl

section Finished

variable (done : a.Completes body) (sound : a.Sound)
include done sound

theorem handles_of_lies (traced : a.Traced log)
    (plain : ∀ e ∈ log, e.instruction.isMoveParameter = false)
    (lies : Lies a log body l k block before run after) :
    List.Forall₂ (Handles log body (a.image log)) (a.block l).handlers block.handlers := by
  have hl := List.mem_of_getElem? lies.number
  rw [lies.handlers done]
  apply forall₂_handlers
  intro c hc
  have hs : c.handler ∈ (a.block l).successors := List.mem_append_right _ (List.mem_map_of_mem hc)
  obtain ⟨n, hn⟩ := done.number sound hl hs
  obtain ⟨j, hj, hlands⟩ := lands_start done sound traced plain (done.successor sound hl hs)
  have hsettle : body.settle ⟨n, 0⟩ = some (a.image log j) := by
    simpa [MethodBody.Lands, hn] using hlands
  exact ⟨n, hn, rfl, j, hj, (MethodBody.block_of_settle hsettle).symm, hsettle⟩

theorem shields (traced : a.Traced (cover.map Covered.entry)) (shielded : a.Shielded cover)
    (plain : ∀ e ∈ cover.map Covered.entry, e.instruction.isMoveParameter = false) :
    Shields cover body (a.image (cover.map Covered.entry)) where
  caught := by
    intro i c hc caught
    have hentry : (cover.map Covered.entry)[i]? = some c.entry := by rw [List.getElem?_map, hc]; rfl
    obtain ⟨k, block, before, run, after, n, lies, rfl, hn⟩ := exists_lies done sound traced hentry
    have hlt := (List.getElem?_eq_some_iff.mp hn).1
    have hlength := shielded.length_of_isCaught lies hc caught hlt
    obtain ⟨run, last, rfl⟩ := (List.eq_nil_or_concat' run).resolve_left lies.nonempty
    obtain rfl : n = run.length := by simpa using hlength.symm
    have hhandlers := shielded.handlers_of_last sound lies hc rfl
    rw [(Covered.handlers_of_isCaught caught).1] at hhandlers
    rw [lies.image sound hlt, ← hhandlers]
    refine ⟨block, lies.placed, ?_, handles_of_lies done sound traced plain lies⟩
    rw [lies.length, hlength, Nat.add_assoc]
  uncaught := by
    intro k block hk
    obtain ⟨l, hl, -⟩ := done.block_iff.mp hk
    obtain ⟨block', before, run, after, lies⟩ := done.lies sound traced hl
    obtain rfl : block = block' := Option.some.inj (hk.symm.trans lies.placed)
    obtain ⟨run, e, rfl⟩ := (List.eq_nil_or_concat' run).resolve_left lies.nonempty
    have hlt : run.length < (run ++ [e]).length := by simp
    have hentry := (lies.spans.getElem?_run hlt).trans List.getElem?_concat_length
    rw [List.getElem?_map, Option.map_eq_some_iff] at hentry
    obtain ⟨c, hc, rfl⟩ := hentry
    refine ⟨before.length + run.length, c, hc, ?_, ?_⟩
    · rw [lies.image sound hlt, lies.length, List.length_append, List.length_singleton]
      rfl
    · intro huncaught
      have hhandlers := shielded.handlers_of_last sound lies hc (lies.spans.inside _ (by simp))
      rw [Covered.handlers_of_not_isCaught huncaught] at hhandlers
      rw [lies.handlers done, hhandlers]
      rfl

end Finished

theorem run_handlers {operation : Operation} (h : operation.isCatch = true) (l : Label) :
    ((a.run operation).state.block l).handlers = (a.block l).handlers := by
  cases operation with
  | addCatch exception handler =>
    simp only [run, Outcome.map, addCatch]
    split
    · rfl
    · split
      · rfl
      · split
        · rfl
        · rename_i b hadopt
          unfold adopt at hadopt
          split at hadopt
          · cases hadopt
          · split at hadopt
            · cases hadopt
              rfl
            · cases hadopt
              exact observe_editBlock DraftBlock.handlers fun _ => rfl
  | removeCatch exception =>
    simp only [run, Outcome.map, removeCatch]
    split <;> rfl
  | _ => cases h

theorem runAll_handlers {calls : List Operation} (h : ∀ call ∈ calls, call.isCatch = true)
    (l : Label) : ((a.runAll calls).block l).handlers = (a.block l).handlers := by
  induction calls generalizing a with
  | nil => rfl
  | cons call rest ih =>
    have hrun : a.runAll (call :: rest) = (a.run call).state.runAll rest := rfl
    rw [hrun, ih fun c hc => h c (List.mem_cons_of_mem call hc)]
    exact run_handlers (h call List.mem_cons_self) l

/-- Whatever calls were made on a body, if it finishes, then with exception edges exactly where an
instruction that can throw was appended inside a clause: that instruction ends its block, and the
handlers are the clauses that were in force, the latest first. Calls about clauses never change
handlers that a block has already. -/
theorem finish_shields (id : BodyId) (method : MethodId) (isStatic : Bool)
    (history : List Operation) (body : MethodBody)
    (h : ((start id method isStatic).runAll history).finish.result = .ok body) :
    (∃ image, Refines ((start id method isStatic).log history)
        ((start id method isStatic).runAll history).finish.state.register body image ∧
      Shields ((start id method isStatic).covered [] history) body image) ∧
    ∀ before calls : List Operation, (∀ call ∈ calls, call.isCatch = true) → ∀ l : Label,
        (((start id method isStatic).runAll (before ++ calls)).block l).handlers =
          (((start id method isStatic).runAll before).block l).handlers := by
  constructor
  · obtain ⟨steps, done⟩ := finish_steps h
    have sound := start_sound id method isStatic
    have entries := covered_entries (a := start id method isStatic) [] history
    have traced := steps.traced sound (start_traced id method isStatic)
    have plain : ∀ e ∈ (start id method isStatic).log history,
        e.instruction.isMoveParameter = false := by
      intro e he
      obtain ⟨c, -, emits⟩ := steps.emits e he
      exact emits.plain
    have shielded := (finish_ok h).1.shielded_silent rfl
      (Steps.sound (runAll_steps history) sound)
      (sound.runAll_shielded (start_shielded id method isStatic) history)
    refine ⟨_, refines done (steps.sound sound) traced plain, ?_⟩
    rw [List.nil_append] at traced shielded
    rw [← entries] at traced plain ⊢
    exact shields done (steps.sound sound) traced shielded plain
  · intro before calls hcalls l
    have hrun : (start id method isStatic).runAll (before ++ calls) =
        ((start id method isStatic).runAll before).runAll calls := List.foldl_append
    rw [hrun]
    exact runAll_handlers hcalls l

end Assembler

/-! Two clauses that overlap: the one that was added first is removed first. -/
namespace Overlap

def id : BodyId := ⟨0⟩
def method : MethodId := ⟨.root, ⟨"divide", by decide⟩, .int, [.int]⟩

def this : Local := ⟨id, 0, .root⟩
def divisor : Local := ⟨id, 1, .int⟩
def outer : Label := ⟨id, 1⟩
def inner : Label := ⟨id, 2⟩

def calls : List Operation :=
  [.newLabel, .newLabel, .addCatch .string outer, .addCatch .throwable inner, .addCatch .string inner,
    .emit (.binary .divide divisor divisor divisor), .removeCatch .string, .emit (.raise this),
    .mark outer, .removeCatch .throwable, .emit (.monitorEnter this), .emit (.returnValue divisor),
    .mark inner, .emit (.returnValue divisor)]

def v0 : Register := ⟨0, .root⟩
def v1 : Register := ⟨1, .int⟩

def finished : MethodBody where
  blocks :=
    [⟨0, [.moveParameter v0 0, .moveParameter v1 1, .binary .divide v1 v1 v1], some 3, none,
        [⟨.throwable, 2⟩, ⟨.string, 1⟩]⟩,
      ⟨1, [.monitorEnter v0, .returnValue v1], none, none, []⟩,
      ⟨2, [.returnValue v1], none, none, []⟩,
      ⟨3, [.raise v0], none, none, [⟨.throwable, 2⟩]⟩]
  registers := 2
  parameterRegisters := 2

theorem calls_finish :
    ((Assembler.start id method false).runAll calls).finish.result = .ok finished := by
  decide

theorem finished_shields :
    (((Assembler.start id method false).covered [] calls).map Covered.clauses =
        [[⟨.throwable, inner⟩, ⟨.string, outer⟩], [⟨.throwable, inner⟩], [], [], []] ∧
      ((Assembler.start id method false).runAll calls).finish.result = .ok finished) ∧
    (∃ image, Refines ((Assembler.start id method false).log calls)
        ((Assembler.start id method false).runAll calls).finish.state.register finished image ∧
      Shields ((Assembler.start id method false).covered [] calls) finished image) ∧
    ∀ before catching : List Operation, (∀ call ∈ catching, call.isCatch = true) → ∀ l : Label,
      (((Assembler.start id method false).runAll (before ++ catching)).block l).handlers =
        (((Assembler.start id method false).runAll before).block l).handlers :=
  ⟨⟨by decide, calls_finish⟩,
    Assembler.finish_shields id method false calls finished calls_finish⟩

end Overlap
end Dalvik
