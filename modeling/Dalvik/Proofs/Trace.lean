import Dalvik.Proofs.Append

/-! How the blocks of a body lie in the sequence of its instructions. The code of a block is one run
of that sequence, after the moves of the arguments if it is the entry block, and a block that code
runs out of goes on where the next instruction went. -/
namespace Dalvik.Assembler

variable {a b : Assembler} {l m : Label} {log before run after : List Entry}

/-- Where code goes on: in the block of the first instruction that follows, or else in the open one. -/
def continuation (a : Assembler) (rest : List Entry) : Option Label :=
  (rest.head?.map Entry.block).or a.current

@[simp] theorem continuation_nil : a.continuation [] = a.current := rfl

theorem continuation_concat {e : Entry} (hcurrent : a.current = some e.block) :
    b.continuation (after ++ [e]) = a.continuation after := by
  cases after with
  | nil => exact hcurrent.symm
  | cons => rfl

theorem continuation_of_closed (closed : a.current = none) {n : Label}
    (h : a.continuation after = some n) : b.continuation after = some n := by
  cases after with
  | nil => simp [closed] at h
  | cons => exact h

def prologue (a : Assembler) (l : Label) : List (Instruction Local) :=
  if l = ⟨a.body, 0⟩ ∧ a.frame.isSome then Placement.argumentMoves 0 a.parameters.toList else []

theorem prologue_congr (hbody : b.body = a.body) (hframe : b.frame = a.frame)
    (hparameters : b.parameters = a.parameters) : b.prologue l = a.prologue l := by
  simp only [prologue, hbody, hframe, hparameters]

theorem prologue_of_ne (h : l ≠ ⟨a.body, 0⟩) : a.prologue l = [] := by
  simp [prologue, h]

/-- The edges that a block has on account of the instruction that it ends with. -/
structure Linked (d : DraftBlock) (next : Option Label) (e : Entry) : Prop where
  through : e.instruction.flow ≠ .goto → ∀ n, d.primary = some n → next = some n
  goto : e.instruction.flow = .goto → d.primary = e.target
  branch : e.instruction.flow = .branch → d.alternate = e.target

/-- The code of a block is one run of all the code, and the last so far while the block is open. -/
structure Spans (a : Assembler) (log : List Entry) (l : Label) (before run after : List Entry) :
    Prop where
  split : log = before ++ run ++ after
  inside : ∀ e ∈ run, e.block = l
  outside : ∀ e ∈ before ++ after, e.block ≠ l
  code : (a.block l).instructions.toList = a.prologue l ++ run.map Entry.instruction
  current : a.current = some l → after = []
  linked : ∀ e, run.getLast? = some e → Linked (a.block l) (a.continuation after) e

theorem Spans.mem_run_iff (spans : Spans a log l before run after) {e : Entry} :
    e ∈ run ↔ e ∈ log ∧ e.block = l := by
  rw [spans.split, List.append_assoc, List.mem_append, List.mem_append]
  constructor
  · intro he
    exact ⟨.inr (.inl he), spans.inside e he⟩
  · rintro ⟨he | he | he, hblock⟩
    · exact absurd hblock (spans.outside e (List.mem_append_left _ he))
    · exact he
    · exact absurd hblock (spans.outside e (List.mem_append_right _ he))

theorem spans_of_unvisited (hcode : (a.block l).instructions.toList = a.prologue l)
    (unvisited : ∀ e ∈ log, e.block ≠ l) : Spans a log l log [] [] where
  split := by simp
  inside := by simp
  outside := by simpa using unvisited
  code := by simpa using hcode
  current := fun _ => rfl
  linked := by simp

/-- A block lies where it did as long as neither its run and edges nor the open block change. -/
theorem Spans.congr (spans : Spans a log l before run after) (hcurrent : b.current = a.current)
    (hcode : (b.block l).instructions.toList = b.prologue l ++ run.map Entry.instruction)
    (hprimary : (b.block l).primary = (a.block l).primary)
    (halternate : (b.block l).alternate = (a.block l).alternate) :
    Spans b log l before run after where
  split := spans.split
  inside := spans.inside
  outside := spans.outside
  code := hcode
  current := fun h => spans.current (hcurrent.symm.trans h)
  linked := fun e he => by
    have linked := spans.linked e he
    have hnext : b.continuation after = a.continuation after := by simp only [continuation, hcurrent]
    exact ⟨by rw [hprimary, hnext]; exact linked.through, by rw [hprimary]; exact linked.goto,
      by rw [halternate]; exact linked.branch⟩

structure Traced (a : Assembler) (log : List Entry) : Prop where
  emitted : a.emitted = true → log ≠ []
  first : a.continuation log = some ⟨a.body, 0⟩
  owned : ∀ e ∈ log, a.ownsLabel e.block = true
  spans : ∀ l, a.ownsLabel l = true → ∃ before run after, Spans a log l before run after

theorem start_traced (body : BodyId) (method : MethodId) (isStatic : Bool) :
    (start body method isStatic).Traced [] where
  emitted := fun h => by simp [start] at h
  first := rfl
  owned := by simp
  spans := fun l owned => by
    obtain rfl := (ownsLabel_start body method isStatic).mp owned
    have hprologue : (start body method isStatic).prologue ⟨body, 0⟩ = [] := by simp [prologue, start]
    have hcode : ((start body method isStatic).block ⟨body, 0⟩).instructions.toList = [] := by
      rw [block_start]
    exact ⟨[], [], [], spans_of_unvisited (hcode.trans hprologue.symm) (by simp)⟩

theorem Traced.congr (traced : a.Traced log) (hbody : b.body = a.body) (hframe : b.frame = a.frame)
    (hparameters : b.parameters = a.parameters) (hcurrent : b.current = a.current)
    (hemitted : b.emitted = a.emitted) (howned : ∀ l, b.ownsLabel l = a.ownsLabel l)
    (hcode : ∀ l, (b.block l).instructions = (a.block l).instructions)
    (hprimary : ∀ l, (b.block l).primary = (a.block l).primary)
    (halternate : ∀ l, (b.block l).alternate = (a.block l).alternate) : b.Traced log where
  emitted := fun h => traced.emitted (hemitted.symm.trans h)
  first := by
    rw [hbody, ← traced.first, continuation, continuation, hcurrent]
  owned := fun e he => (howned _).trans (traced.owned e he)
  spans := fun l owned => by
    obtain ⟨before, run, after, spans⟩ := traced.spans l ((howned l).symm.trans owned)
    refine ⟨before, run, after, spans.congr hcurrent ?_ (hprimary l) (halternate l)⟩
    rw [hcode, prologue_congr hbody hframe hparameters, spans.code]

theorem Traced.label (traced : a.Traced log) (sound : a.Sound) : (a.grow {}).Traced log where
  emitted := traced.emitted
  first := traced.first
  owned := fun e he => ownsLabel_grow.mpr (.inl (traced.owned e he))
  spans := fun l owned => by
    obtain howned | rfl := ownsLabel_grow.mp owned
    · obtain ⟨before, run, after, spans⟩ := traced.spans l howned
      have hblock := block_grow_of_owned (b := {}) howned
      refine ⟨before, run, after, spans.congr rfl ?_ (by rw [hblock]) (by rw [hblock])⟩
      rw [hblock]
      exact spans.code
    · refine ⟨log, [], [], spans_of_unvisited ?_ fun e he => ne_freshLabel (traced.owned e he)⟩
      rw [block_grow_fresh]
      exact (prologue_of_ne (ne_freshLabel sound.entry_owned).symm).symm

theorem Traced.enter (traced : a.Traced log) (sound : a.Sound) (uses : a.Uses m)
    (closed : a.current = none) (unmarked : (a.block m).marked = false)
    (edited : Edited a m ({ · with marked := true }) b) (hframe : b.frame = a.frame)
    (hparameters : b.parameters = a.parameters) (hemitted : b.emitted = a.emitted)
    (hcurrent : b.current = some m) : b.Traced log where
  emitted := fun h => traced.emitted (hemitted.symm.trans h)
  first := by rw [edited.body]; exact continuation_of_closed closed traced.first
  owned := fun e he => edited.ownsLabel.trans (traced.owned e he)
  spans := fun l owned => by
    have hprologue : b.prologue l = a.prologue l := prologue_congr edited.body hframe hparameters
    obtain ⟨before, run, after, spans⟩ := traced.spans l (edited.ownsLabel.symm.trans owned)
    by_cases hl : l = m
    · subst l
      have hentry : m ≠ ⟨a.body, 0⟩ := by
        rintro rfl
        simp [sound.entry_marked] at unmarked
      have hcode := spans.code
      rw [(sound.blank uses.1 unmarked).code, prologue_of_ne hentry] at hcode
      obtain rfl : run = [] := by simpa using hcode
      refine ⟨log, [], [], spans_of_unvisited ?_ ?_⟩
      · rw [hprologue, prologue_of_ne hentry, edited.observe DraftBlock.instructions fun _ => rfl,
          (sound.blank uses.1 unmarked).code]
      · simpa [spans.split] using spans.outside
    · refine ⟨before, run, after, { spans with code := ?_, current := ?_, linked := fun e he => ?_ }⟩
      · rw [hprologue, edited.observe DraftBlock.instructions fun _ => rfl, spans.code]
      · intro h
        rw [hcurrent] at h
        exact absurd (Option.some.inj h).symm hl
      · have linked := spans.linked e he
        rw [edited.block_of_ne uses.1 (edited.ownsLabel.symm.trans owned) hl]
        exact { linked with
          through := fun hflow n hn => continuation_of_closed closed (linked.through hflow n hn) }

theorem Appended.linked {i : Instruction Local} {target : Option Label}
    (appended : Appended a m i target b) : Linked (b.block m) b.current ⟨m, i, target⟩ where
  through := fun hflow n hn => by
    simp only [appended.block, ended, exits] at hn
    rw [appended.current]
    cases hi : i.flow with
    | next =>
      cases hguards : a.guards i with
      | true => simpa [hi, hguards, forks] using hn
      | false => simp [hi, hguards] at hn
    | branch => simpa [hi, forks] using hn
    | goto => exact absurd hi hflow
    | leave => simp [hi] at hn
    | raise => simp [hi] at hn
  goto := fun hflow => by
    have hi : i.flow = .goto := hflow
    simp [appended.block, ended, exits, hi]
  branch := fun hflow => by
    have hi : i.flow = .branch := hflow
    simp [appended.block, ended, exits, hi]

theorem Traced.append {i : Instruction Local} {target : Option Label} (traced : a.Traced log)
    (sound : a.Sound) (hcurrent : a.current = some m) (appended : Appended a m i target b) :
    b.Traced (log ++ [⟨m, i, target⟩]) where
  emitted := fun _ => by simp
  first := by
    rw [appended.body, ← traced.first]
    exact continuation_concat hcurrent
  owned := fun e he => by
    rw [appended.owned]
    obtain he | rfl := List.mem_append.mp he |>.imp_right List.mem_singleton.mp
    · exact .inl (traced.owned e he)
    · exact .inl (sound.current m hcurrent).1
  spans := fun l owned => by
    have hprologue : b.prologue l = a.prologue l :=
      prologue_congr appended.body appended.frame appended.parameters
    obtain howned | ⟨hforks, rfl⟩ := (appended.owned l).mp owned
    · obtain ⟨before, run, after, spans⟩ := traced.spans l howned
      by_cases hl : l = m
      · subst l
        obtain rfl := spans.current hcurrent
        refine ⟨before, run ++ [⟨m, i, target⟩], [], ?_, ?_, spans.outside, ?_, fun _ => rfl, ?_⟩
        · simp [spans.split]
        · simpa [or_imp, forall_and] using spans.inside
        · simp [appended.block, ended, spans.code, hprologue]
        · intro e he
          obtain rfl : ⟨m, i, target⟩ = e := by simpa using he
          exact appended.linked
      · refine ⟨before, run, after ++ [⟨m, i, target⟩], ?_, spans.inside, ?_, ?_, ?_, ?_⟩
        · simp [spans.split]
        · intro e he
          rw [← List.append_assoc] at he
          obtain he | rfl := List.mem_append.mp he |>.imp_right List.mem_singleton.mp
          · exact spans.outside e he
          · exact Ne.symm hl
        · rw [appended.others l howned hl, hprologue, spans.code]
        · intro h
          rw [appended.current] at h
          split at h
          · exact absurd (Option.some.inj h).symm (ne_freshLabel howned)
          · split at h
            · exact absurd (Option.some.inj h).symm hl
            · cases h
        · intro e he
          rw [appended.others l howned hl, continuation_concat hcurrent]
          exact spans.linked e he
    · refine ⟨_, [], [], spans_of_unvisited ?_ ?_⟩
      · rw [appended.fresh hforks, hprologue, prologue_of_ne (ne_freshLabel sound.entry_owned).symm]
      · intro e he
        obtain he | rfl := List.mem_append.mp he |>.imp_right List.mem_singleton.mp
        · exact ne_freshLabel (traced.owned e he)
        · exact ne_freshLabel (sound.current m hcurrent).1

theorem Traced.assign {frame : Frame} {moves : Array (Instruction Local)} (traced : a.Traced log)
    (sound : a.Sound) (unassigned : a.frame = none)
    (hmoves : moves.toList = Placement.argumentMoves 0 a.parameters.toList)
    (edited : Edited a ⟨a.body, 0⟩ (fun d => { d with instructions := moves ++ d.instructions }) b)
    (hframe : b.frame = some frame) (hparameters : b.parameters = a.parameters)
    (hcurrent : b.current = a.current) (hemitted : b.emitted = a.emitted) : b.Traced log where
  emitted := fun h => traced.emitted (hemitted.symm.trans h)
  first := by
    rw [edited.body, ← traced.first, continuation, continuation, hcurrent]
  owned := fun e he => edited.ownsLabel.trans (traced.owned e he)
  spans := fun l owned => by
    have howned : a.ownsLabel l = true := edited.ownsLabel.symm.trans owned
    obtain ⟨before, run, after, spans⟩ := traced.spans l howned
    refine ⟨before, run, after, spans.congr hcurrent ?_
      (edited.observe DraftBlock.primary fun _ => rfl)
      (edited.observe DraftBlock.alternate fun _ => rfl)⟩
    by_cases hl : l = ⟨a.body, 0⟩
    · subst l
      have hbefore : a.prologue ⟨a.body, 0⟩ = [] := by simp [prologue, unassigned]
      have hafter : b.prologue ⟨a.body, 0⟩ = moves.toList := by
        simp [prologue, edited.body, hframe, hparameters, hmoves]
      rw [edited.block_self howned, hafter, Array.toList_append, spans.code, hbefore, List.nil_append]
    · rw [edited.block_of_ne sound.entry_owned howned hl, spans.code, prologue_of_ne hl,
        prologue_of_ne (edited.body ▸ hl)]

theorem Step.traced_silent (step : Step a none b) (sound : a.Sound) (traced : a.Traced log) :
    b.Traced log := by
  cases step with
  | label => exact traced.label sound
  | newLocal type =>
    exact traced.congr rfl rfl rfl rfl rfl (fun _ => rfl) (fun _ => rfl) (fun _ => rfl) fun _ => rfl
  | adopt l owned unused =>
    have edited : Edited a l ({ · with adopted := true })
      { a.editBlock l ({ · with adopted := true }) with order := a.order.push l } := ⟨rfl, rfl, rfl⟩
    exact traced.congr rfl rfl rfl rfl rfl (fun _ => edited.ownsLabel)
      (fun _ => edited.observe DraftBlock.instructions fun _ => rfl)
      (fun _ => edited.observe DraftBlock.primary fun _ => rfl)
      fun _ => edited.observe DraftBlock.alternate fun _ => rfl
  | enter l closed uses unmarked =>
    exact traced.enter sound uses closed unmarked ⟨rfl, rfl, rfl⟩ rfl rfl rfl rfl
  | protect clause =>
    exact traced.congr rfl rfl rfl rfl rfl (fun _ => rfl) (fun _ => rfl) (fun _ => rfl) fun _ => rfl
  | expose exception =>
    exact traced.congr rfl rfl rfl rfl rfl (fun _ => rfl) (fun _ => rfl) (fun _ => rfl) fun _ => rfl
  | assign frame moves unassigned layout =>
    simp only [prepend, sound.entry]
    exact traced.assign sound unassigned (laid_of_layout layout).moves ⟨rfl, rfl, rfl⟩ rfl rfl rfl rfl

theorem Steps.traced (steps : Steps a after b) (sound : a.Sound) (traced : a.Traced log) :
    b.Traced (log ++ after) := by
  induction steps with
  | refl => simpa using traced
  | @tail b c later entry steps step ih =>
    have sound := steps.sound sound
    rw [← List.append_assoc]
    cases entry with
    | none => simpa using step.traced_silent sound ih
    | some e =>
      cases step with
      | append l i target current => exact ih.append sound current (sound.appended current)

theorem Steps.emits (steps : Steps a log b) :
    ∀ e ∈ log, ∃ c, SameMethod a c ∧ c.Emits e.instruction e.target := by
  induction steps with
  | refl => simp
  | @tail b c log entry steps step ih =>
    intro e he
    obtain he | he := List.mem_append.mp he
    · exact ih e he
    · cases step with
      | append l i target current operands emits =>
        obtain rfl : e = ⟨l, i, target⟩ := by simpa using he
        exact ⟨b, steps.sameMethod, emits⟩
      | _ => simp at he

end Dalvik.Assembler
