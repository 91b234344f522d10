import Dalvik.Proofs.Graph
import Mathlib.Data.Set.Function

/-! The graph of a finished body runs as the instructions that were appended, one after the other: each
has its place in the graph, and control passes between the places as it does in the sequence. -/
namespace Dalvik

structure Position where
  block : Nat
  offset : Nat
  deriving DecidableEq

namespace MethodBody

def at? (body : MethodBody) (p : Position) : Option (Instruction Register) :=
  body.blocks[p.block]?.bind fun b => b.instructions[p.offset]?

def IsCode (body : MethodBody) (p : Position) : Prop :=
  ∃ r, body.at? p = some r ∧ r.isMoveParameter = false

/-- Where control is after the moves of arguments at `p`, if there are any. -/
def settle (body : MethodBody) (p : Position) : Option Position :=
  body.blocks[p.block]?.bind fun b =>
    ((b.instructions.drop p.offset).findIdx? fun r => !r.isMoveParameter).map fun n =>
      ⟨p.block, p.offset + n⟩

/-- Where control goes on after `p`, unless it branches or an exception is thrown. -/
def next? (body : MethodBody) (p : Position) : Option Position :=
  body.blocks[p.block]?.bind fun b =>
    if p.offset + 1 < b.instructions.length then some ⟨p.block, p.offset + 1⟩
    else b.primary.map fun n => ⟨n, 0⟩

def taken? (body : MethodBody) (p : Position) : Option Position :=
  body.blocks[p.block]?.bind fun b =>
    if p.offset + 1 < b.instructions.length then none else b.alternate.map fun n => ⟨n, 0⟩

def Lands (body : MethodBody) (p : Option Position) (q : Position) : Prop :=
  p.bind body.settle = some q

theorem settle_eq_some {body : MethodBody} {k o o' : Nat} (hle : o ≤ o')
    (hcode : body.IsCode ⟨k, o'⟩) (hmoves : ∀ m, o ≤ m → m < o' → ∀ r,
      body.at? ⟨k, m⟩ = some r → r.isMoveParameter = true) :
    body.settle ⟨k, o⟩ = some ⟨k, o'⟩ := by
  obtain ⟨r, hr, hplain⟩ := hcode
  obtain ⟨b, hb, hr⟩ := Option.bind_eq_some_iff.mp hr
  obtain ⟨hlt, rfl⟩ : ∃ h : o' < b.instructions.length, b.instructions[o'] = r :=
    List.getElem?_eq_some_iff.mp hr
  have hfind : (b.instructions.drop o).findIdx? (fun r => !r.isMoveParameter) = some (o' - o) := by
    rw [List.findIdx?_eq_some_iff_getElem]
    refine ⟨by rw [List.length_drop]; omega, ?_, fun j hj => ?_⟩
    · simpa [Nat.add_sub_cancel' hle] using hplain
    · have hmove := hmoves (o + j) (by omega) (by omega) (b.instructions[o + j]) (by simp [at?, hb])
      simpa using hmove
  simp [settle, hb, hfind, Nat.add_sub_cancel' hle]

end MethodBody

def start? (log : List Entry) (l : Label) : Option Nat := log.findIdx? (·.block = l)

theorem lt_of_start? {log : List Entry} {l : Label} {j : Nat} (h : start? log l = some j) :
    j < log.length :=
  (List.findIdx?_eq_some_iff_getElem.mp h).1

/-- Control after the instruction at `i` goes on in the graph where it does in the sequence. -/
def Continues (log : List Entry) (body : MethodBody) (image : Nat → Position) (i : Nat) (e : Entry) :
    Prop :=
  match e.instruction.flow with
  | .next =>
    (i + 1 < log.length ∧ body.Lands (body.next? (image i)) (image (i + 1))) ∧
      body.taken? (image i) = none
  | .goto =>
    (∃ t j, e.target = some t ∧ start? log t = some j ∧
      body.Lands (body.next? (image i)) (image j)) ∧ body.taken? (image i) = none
  | .branch =>
    (i + 1 < log.length ∧ body.Lands (body.next? (image i)) (image (i + 1))) ∧
      ∃ t j, e.target = some t ∧ start? log t = some j ∧ body.Lands (body.taken? (image i)) (image j)
  | .leave | .raise => body.next? (image i) = none ∧ body.taken? (image i) = none

/-- A body made of the instructions of `log`, each at its own place. -/
structure Refines (log : List Entry) (register : Local → Except Error Register) (body : MethodBody)
    (image : Nat → Position) : Prop where
  bijective : Set.BijOn image {i | i < log.length} {p | body.IsCode p}
  instruction : ∀ i e, log[i]? = some e →
    ∃ r, e.instruction.traverse register = .ok r ∧ body.at? (image i) = some r
  ordered : ∀ i j, i < j → j < log.length → (image i).block = (image j).block →
    (image i).offset < (image j).offset
  entry : body.settle ⟨0, 0⟩ = some (image 0)
  moves : ∀ p r, body.at? p = some r → r.isMoveParameter = true →
    p.block = 0 ∧ p.offset < (image 0).offset
  flow : ∀ i e, log[i]? = some e → Continues log body image i e

namespace Assembler

variable {a : Assembler} {l : Label} {log before run after : List Entry} {body : MethodBody}
  {block : BasicBlock} {k n i : Nat} {e : Entry}

namespace Spans

theorem getElem?_run (spans : Spans a log l before run after) (hn : n < run.length) :
    log[before.length + n]? = run[n]? := by
  rw [spans.split, List.append_assoc, List.getElem?_append_right (Nat.le_add_right ..),
    Nat.add_sub_cancel_left, List.getElem?_append_left hn]

theorem exists_of_getElem? (spans : Spans a log l before run after) (he : log[i]? = some e)
    (hblock : e.block = l) : ∃ n, i = before.length + n ∧ run[n]? = some e := by
  have houtside : e ∉ before ++ after := fun h => spans.outside e h hblock
  rw [List.mem_append, not_or] at houtside
  rw [spans.split, List.append_assoc, List.getElem?_append] at he
  split at he
  · exact absurd (List.mem_of_getElem? he) houtside.1
  · rename_i hbefore
    rw [List.getElem?_append] at he
    split at he
    · exact ⟨i - before.length, by omega, he⟩
    · exact absurd (List.mem_of_getElem? he) houtside.2

theorem start (spans : Spans a log l before run after) (hrun : run ≠ []) :
    start? log l = some before.length := by
  obtain ⟨e, rest, rfl⟩ := List.exists_cons_of_ne_nil hrun
  have hbefore : before.findIdx? (·.block = l) = none := by
    rw [List.findIdx?_eq_none_iff]
    intro e he
    simpa using spans.outside e (List.mem_append_left _ he)
  have hfirst : e.block = l := spans.inside e List.mem_cons_self
  rw [start?, spans.split, List.append_assoc, List.findIdx?_append, hbefore]
  simp [List.findIdx?_cons, hfirst]

theorem ends (spans : Spans a log l before (run ++ [e]) after) (closed : (a.block l).Closed) :
    (∀ i ∈ run, i.instruction.flow = .next) ∧ (a.block l).Exits e.instruction := by
  obtain ⟨code, last, hcode, straight, hexits⟩ := closed.ends
  have hsame := hcode.symm.trans spans.code
  rw [List.map_append, List.map_singleton, ← List.append_assoc, List.append_singleton_inj] at hsame
  obtain ⟨rfl, rfl⟩ := hsame
  exact ⟨fun i hi => straight _ (List.mem_append_right _ (List.mem_map_of_mem hi)), hexits⟩

end Spans

/-- Where the instruction at `i` of the sequence is placed: as far into its block as it is from the
start of the block's code, after the moves. -/
def image (a : Assembler) (log : List Entry) (i : Nat) : Position :=
  match log[i]? with
  | none => ⟨0, 0⟩
  | some e => ⟨a.surviving.idxOf e.block,
      (a.prologue e.block).length + (i - (start? log e.block).getD 0)⟩

structure Lies (a : Assembler) (log : List Entry) (body : MethodBody) (l : Label) (k : Nat)
    (block : BasicBlock) (before run after : List Entry) : Prop where
  spans : Spans a log l before run after
  nonempty : run ≠ []
  number : a.surviving[k]? = some l
  placed : body.blocks[k]? = some block
  code : (a.prologue l ++ run.map Entry.instruction).mapM (·.traverse a.register) =
    .ok block.instructions
  primary : block.primary = (a.block l).primary.bind a.surviving.idxOf?
  alternate : block.alternate = (a.block l).alternate.bind a.surviving.idxOf?

theorem Completes.lies (done : a.Completes body) (sound : a.Sound) (traced : a.Traced log)
    (hk : a.surviving[k]? = some l) :
    ∃ block before run after, Lies a log body l k block before run after := by
  have hl := List.mem_of_getElem? hk
  obtain ⟨uses, hcode⟩ := (mem_surviving sound).mp hl
  obtain ⟨before, run, after, spans⟩ := traced.spans l uses.1
  have hlt : k < body.blocks.length := by
    rw [done.length_blocks]
    exact (List.getElem?_eq_some_iff.mp hk).1
  obtain ⟨l', hl', hblock⟩ := done.block_iff.mp (List.getElem?_eq_getElem hlt)
  obtain rfl : l = l' := Option.some.inj (hk.symm.trans hl')
  obtain ⟨is, his, hparts⟩ := finishBlock_eq_ok.mp hblock
  refine ⟨_, before, run, after, spans, ?_, hk, List.getElem?_eq_getElem hlt, ?_, ?_, ?_⟩
  · -- the entry block has the first instruction, any other has nothing but its run
    rintro rfl
    by_cases hentry : l = ⟨a.body, 0⟩
    · obtain ⟨e, rest, rfl, hfirst⟩ := done.first traced
      exact absurd (spans.mem_run_iff.mpr ⟨List.mem_cons_self, hfirst.trans hentry.symm⟩)
        List.not_mem_nil
    · simp [DraftBlock.isEmpty, ← Array.toList_eq_nil_iff, spans.code, prologue_of_ne hentry] at hcode
  · rw [← hparts, ← spans.code, his]
  · rw [← hparts]
  · rw [← hparts]

namespace Lies

variable {r : Instruction Register}

theorem at?_iff (lies : Lies a log body l k block before run after) :
    body.at? ⟨k, n⟩ = some r ↔ ∃ x, (a.prologue l ++ run.map Entry.instruction)[n]? = some x ∧
      x.traverse a.register = .ok r := by
  simp [MethodBody.at?, lies.placed, getElem?_of_mapM lies.code]

theorem isMoveParameter_of_lt (lies : Lies a log body l k block before run after)
    (hn : n < (a.prologue l).length) (hr : body.at? ⟨k, n⟩ = some r) : r.isMoveParameter = true := by
  obtain ⟨x, hx, htraverse⟩ := lies.at?_iff.mp hr
  rw [List.getElem?_append_left hn] at hx
  rw [Instruction.isMoveParameter_of_traverse htraverse]
  have hmem := List.mem_of_getElem? hx
  unfold prologue at hmem
  split at hmem
  · exact Placement.isMoveParameter_of_mem hmem
  · simp at hmem

theorem at?_run (lies : Lies a log body l k block before run after) :
    body.at? ⟨k, (a.prologue l).length + n⟩ = some r ↔
      ∃ e, run[n]? = some e ∧ e.instruction.traverse a.register = .ok r := by
  rw [lies.at?_iff, List.getElem?_append_right (Nat.le_add_right ..), Nat.add_sub_cancel_left]
  simp

theorem length (lies : Lies a log body l k block before run after) :
    block.instructions.length = (a.prologue l).length + run.length := by
  simp [length_of_mapM lies.code]

theorem exists_at? (lies : Lies a log body l k block before run after) (he : run[n]? = some e) :
    ∃ r, e.instruction.traverse a.register = .ok r ∧
      body.at? ⟨k, (a.prologue l).length + n⟩ = some r := by
  have hn : (a.prologue l).length + n < block.instructions.length := by
    have := (List.getElem?_eq_some_iff.mp he).1
    rw [lies.length]
    omega
  have hat : body.at? ⟨k, (a.prologue l).length + n⟩ =
      some (block.instructions[(a.prologue l).length + n]) := by
    simp [MethodBody.at?, lies.placed]
  obtain ⟨e', he', htraverse⟩ := lies.at?_run.mp hat
  obtain rfl : e = e' := Option.some.inj (he.symm.trans he')
  exact ⟨_, htraverse, hat⟩

theorem image (lies : Lies a log body l k block before run after) (sound : a.Sound)
    (hn : n < run.length) :
    a.image log (before.length + n) = ⟨k, (a.prologue l).length + n⟩ := by
  have he := (lies.spans.getElem?_run hn).trans (List.getElem?_eq_getElem hn)
  have hblock : (run[n]).block = l := lies.spans.inside _ (List.getElem_mem hn)
  have hk : a.surviving.idxOf l = k := by
    obtain ⟨hlt, rfl⟩ := List.getElem?_eq_some_iff.mp lies.number
    exact (nodup_surviving sound).idxOf_getElem k hlt
  simp [Assembler.image, he, hblock, lies.spans.start lies.nonempty, hk]

theorem isCode (lies : Lies a log body l k block before run after)
    (plain : ∀ e ∈ log, e.instruction.isMoveParameter = false) (hn : n < run.length) :
    body.IsCode ⟨k, (a.prologue l).length + n⟩ := by
  obtain ⟨r, htraverse, hr⟩ := lies.exists_at? (List.getElem?_eq_getElem hn)
  have hplain := plain _ (lies.spans.mem_run_iff.mp (List.getElem_mem hn)).1
  rw [← Instruction.isMoveParameter_of_traverse htraverse] at hplain
  exact ⟨r, hr, hplain⟩

theorem settle_start (lies : Lies a log body l k block before run after) (sound : a.Sound)
    (plain : ∀ e ∈ log, e.instruction.isMoveParameter = false) :
    body.settle ⟨k, 0⟩ = some (a.image log before.length) := by
  have hpos : 0 < run.length := List.length_pos_iff.mpr lies.nonempty
  have himage := lies.image sound hpos
  rw [Nat.add_zero] at himage
  rw [himage]
  exact MethodBody.settle_eq_some (Nat.zero_le _) (lies.isCode plain hpos)
    fun m _ hm r hr => lies.isMoveParameter_of_lt hm hr

theorem next_inside (lies : Lies a log body l k block before run after) (sound : a.Sound)
    (plain : ∀ e ∈ log, e.instruction.isMoveParameter = false) (hn : n + 1 < run.length) :
    body.Lands (body.next? (a.image log (before.length + n))) (a.image log (before.length + n + 1)) ∧
      body.taken? (a.image log (before.length + n)) = none := by
  have hlt : (a.prologue l).length + n + 1 < block.instructions.length := by
    rw [lies.length]
    omega
  rw [lies.image sound (by omega), Nat.add_assoc, lies.image sound hn]
  constructor
  · simp only [MethodBody.Lands, MethodBody.next?, lies.placed, Option.bind_some, hlt, if_true]
    exact MethodBody.settle_eq_some (Nat.le_refl _) (lies.isCode plain hn) fun m _ _ => by omega
  · simp [MethodBody.taken?, lies.placed, hlt]

theorem next_last (lies : Lies a log body l k block before (run ++ [e]) after) (sound : a.Sound) :
    body.next? (a.image log (before.length + run.length)) = block.primary.map (⟨·, 0⟩) ∧
      body.taken? (a.image log (before.length + run.length)) = block.alternate.map (⟨·, 0⟩) := by
  have hlast : ¬ (a.prologue l).length + run.length + 1 < block.instructions.length := by
    simp [lies.length, Nat.add_assoc]
  rw [lies.image sound (by simp)]
  simp [MethodBody.next?, MethodBody.taken?, lies.placed, hlast]

end Lies

section Finished

variable (done : a.Completes body) (sound : a.Sound) (traced : a.Traced log)
include done sound traced

theorem exists_lies (he : log[i]? = some e) : ∃ k block before run after n,
    Lies a log body e.block k block before run after ∧ i = before.length + n ∧ run[n]? = some e := by
  obtain ⟨k, hk⟩ := List.getElem?_of_mem (traced.survives sound (List.mem_of_getElem? he))
  obtain ⟨block, before, run, after, lies⟩ := done.lies sound traced hk
  obtain ⟨n, hi, hn⟩ := lies.spans.exists_of_getElem? he rfl
  exact ⟨k, block, before, run, after, n, lies, hi, hn⟩

theorem exists_lies_of_at? {r : Instruction Register} (hr : body.at? ⟨k, n⟩ = some r) :
    ∃ l block before run after, Lies a log body l k block before run after := by
  obtain ⟨block, hblock, -⟩ := Option.bind_eq_some_iff.mp hr
  obtain ⟨l, hl, -⟩ := done.block_iff.mp hblock
  exact ⟨l, done.lies sound traced hl⟩

theorem entry_lies : ∃ block run after, Lies a log body ⟨a.body, 0⟩ 0 block [] run after := by
  obtain ⟨block, before, run, after, lies⟩ := done.lies sound traced (done.entry sound traced)
  obtain ⟨e, rest, hlog, hfirst⟩ := done.first traced
  have hstart : start? log ⟨a.body, 0⟩ = some 0 := by simp [start?, hlog, List.findIdx?_cons, hfirst]
  rw [lies.spans.start lies.nonempty, Option.some.injEq, List.length_eq_zero_iff] at hstart
  subst hstart
  exact ⟨block, run, after, lies⟩

theorem image_zero : a.image log 0 = ⟨0, (a.prologue ⟨a.body, 0⟩).length⟩ := by
  obtain ⟨block, run, after, lies⟩ := entry_lies done sound traced
  simpa using lies.image sound (List.length_pos_iff.mpr lies.nonempty)

theorem start_of_continuation (spans : Spans a log l before (run ++ [e]) after) {m : Label}
    (hnext : a.continuation after = some m) (hm : m ∈ a.surviving) :
    start? log m = some (before.length + run.length + 1) := by
  obtain ⟨k, hk⟩ := List.getElem?_of_mem hm
  obtain ⟨block, before', run', after', lies⟩ := done.lies sound traced hk
  rw [lies.spans.start lies.nonempty]
  cases after with
  | nil =>
    -- the open block has no code
    rw [continuation_nil] at hnext
    have hpending := done.pending
    simp [Assembler.pending, hnext, ((mem_surviving sound).mp hm).2] at hpending
  | cons e' after =>
    have hblock : e'.block = m := Option.some.inj hnext
    have he' : log[before.length + run.length + 1]? = some e' := by
      rw [spans.split, List.getElem?_append_right (by simp; omega)]
      simp [Nat.add_assoc]
    obtain ⟨n, hindex, hn⟩ := lies.spans.exists_of_getElem? he' hblock
    cases n with
    | zero => rw [hindex, Nat.add_zero]
    | succ n =>
      -- then the last instruction of the block would be in the next one as well
      have hlt : n < run'.length := Nat.lt_of_succ_lt (List.getElem?_eq_some_iff.mp hn).1
      have he : run'[n]? = some e := by
        rw [← lies.spans.getElem?_run hlt, show before'.length + n = before.length + run.length by omega,
          spans.getElem?_run (by simp), List.getElem?_concat_length]
      have hl : l = m := by
        rw [← spans.inside e (by simp), lies.spans.inside e (List.mem_of_getElem? he)]
      exact absurd (hblock.trans hl.symm) (spans.outside e' (by simp))

theorem image_offset {j : Nat} (hi : i < log.length) (hj : j < log.length)
    (hblock : (a.image log i).block = (a.image log j).block) :
    (a.image log i).offset + j = (a.image log j).offset + i := by
  obtain ⟨k, block, before, run, after, n, lies, rfl, hn⟩ :=
    exists_lies done sound traced (List.getElem?_eq_getElem hi)
  obtain ⟨k', block', before', run', after', n', lies', rfl, hn'⟩ :=
    exists_lies done sound traced (List.getElem?_eq_getElem hj)
  rw [lies.image sound (List.getElem?_eq_some_iff.mp hn).1,
    lies'.image sound (List.getElem?_eq_some_iff.mp hn').1] at hblock
  obtain rfl : k = k' := hblock
  have hl := Option.some.inj (lies'.number.symm.trans lies.number)
  obtain ⟨m, hm, hrun⟩ := lies.spans.exists_of_getElem? (List.getElem?_eq_getElem hj) hl
  rw [hm, lies.image sound (List.getElem?_eq_some_iff.mp hn).1,
    lies.image sound (List.getElem?_eq_some_iff.mp hrun).1]
  simp only
  omega

variable (plain : ∀ e ∈ log, e.instruction.isMoveParameter = false)
include plain

theorem lands_start {s : Label} (hs : s ∈ a.surviving) : ∃ j, start? log s = some j ∧
    body.Lands ((a.surviving.idxOf? s).map (⟨·, 0⟩)) (a.image log j) := by
  obtain ⟨k, hk⟩ := List.getElem?_of_mem hs
  obtain ⟨block, before, run, after, lies⟩ := done.lies sound traced hk
  refine ⟨before.length, lies.spans.start lies.nonempty, ?_⟩
  rw [MethodBody.Lands, (idxOf?_eq_some_iff_getElem? (nodup_surviving sound)).mpr hk]
  exact lies.settle_start sound plain

/-- The last instruction of a block decides where control goes on. -/
theorem continues_last (lies : Lies a log body l k block before (run ++ [e]) after) :
    Continues log body (a.image log) (before.length + run.length) e := by
  have hl := List.mem_of_getElem? lies.number
  obtain ⟨-, hexits⟩ := lies.spans.ends (done.closed sound hl)
  have linked := lies.spans.linked e (by simp)
  obtain ⟨hnext, htaken⟩ := lies.next_last sound
  rw [lies.primary] at hnext
  rw [lies.alternate] at htaken
  have hthrough (hflow : e.instruction.flow ≠ .goto) {m : Label} (hm : (a.block l).primary = some m) :
      before.length + run.length + 1 < log.length ∧
        body.Lands (body.next? (a.image log (before.length + run.length)))
          (a.image log (before.length + run.length + 1)) := by
    have hsurvives := done.successor sound hl (s := m) (by simp [DraftBlock.successors, hm])
    obtain ⟨j, hj, hlands⟩ := lands_start done sound traced plain hsurvives
    have hstart := start_of_continuation done sound traced lies.spans (linked.through hflow m hm)
      hsurvives
    obtain rfl : _ = j := Option.some.inj (hstart.symm.trans hj)
    exact ⟨lt_of_start? hj, by rw [hnext, hm]; exact hlands⟩
  cases hflow : e.instruction.flow with
  | next =>
    simp only [Continues, DraftBlock.Exits, hflow] at hexits ⊢
    obtain ⟨-, halternate, -, m, hm, -⟩ := hexits
    exact ⟨hthrough (by simp [hflow]) hm, by simp [htaken, halternate]⟩
  | goto =>
    simp only [Continues, DraftBlock.Exits, hflow] at hexits ⊢
    obtain ⟨⟨t, ht⟩, halternate, -⟩ := hexits
    obtain ⟨j, hj, hlands⟩ := lands_start done sound traced plain
      (done.successor sound hl (s := t) (by simp [DraftBlock.successors, ht]))
    refine ⟨⟨t, j, (linked.goto hflow).symm.trans ht, hj, ?_⟩, by simp [htaken, halternate]⟩
    rw [hnext, ht]
    exact hlands
  | branch =>
    simp only [Continues, DraftBlock.Exits, hflow] at hexits ⊢
    obtain ⟨⟨m, t, hm, ht, -⟩, -⟩ := hexits
    obtain ⟨j, hj, hlands⟩ := lands_start done sound traced plain
      (done.successor sound hl (s := t) (by simp [DraftBlock.successors, ht]))
    refine ⟨hthrough (by simp [hflow]) hm, t, j, (linked.branch hflow).symm.trans ht, hj, ?_⟩
    rw [htaken, ht]
    exact hlands
  | leave =>
    simp only [Continues, DraftBlock.Exits, hflow] at hexits ⊢
    simp [hnext, htaken, hexits.1, hexits.2.1]
  | raise =>
    simp only [Continues, DraftBlock.Exits, hflow] at hexits ⊢
    simp [hnext, htaken, hexits.1, hexits.2]

theorem continues (he : log[i]? = some e) : Continues log body (a.image log) i e := by
  obtain ⟨k, block, before, run, after, n, lies, rfl, hrun⟩ := exists_lies done sound traced he
  have hl := List.mem_of_getElem? lies.number
  obtain ⟨run, last, rfl⟩ := (List.eq_nil_or_concat' run).resolve_left lies.nonempty
  rw [List.getElem?_append] at hrun
  split at hrun
  · rename_i hinside
    have hflow := (lies.spans.ends (done.closed sound hl)).1 e (List.mem_of_getElem? hrun)
    obtain ⟨hnext, htaken⟩ := lies.next_inside sound plain (n := n) (by simpa using hinside)
    simp only [Continues, hflow]
    refine ⟨⟨?_, hnext⟩, htaken⟩
    simp [lies.spans.split]
    omega
  · obtain ⟨hindex, -⟩ := List.getElem?_eq_some_iff.mp hrun
    obtain rfl : n = run.length := by
      rw [List.length_singleton] at hindex
      omega
    obtain rfl : last = e := by simpa using hrun
    exact continues_last done sound traced plain lies

/-- Every instruction has a place of its own, and every place its instruction. -/
theorem image_bijOn :
    Set.BijOn (a.image log) {i | i < log.length} {p | body.IsCode p} := by
  refine ⟨fun i hi => ?_, fun i hi j hj hij => ?_, fun ⟨k, m⟩ hp => ?_⟩
  · obtain ⟨k, block, before, run, after, n, lies, rfl, hrun⟩ :=
      exists_lies done sound traced (List.getElem?_eq_getElem hi)
    have hlt : n < run.length := (List.getElem?_eq_some_iff.mp hrun).1
    rw [lies.image sound hlt]
    exact lies.isCode plain hlt
  · have hoffset := image_offset done sound traced hi hj (congrArg Position.block hij)
    rw [hij] at hoffset
    exact (Nat.add_left_cancel hoffset).symm
  · obtain ⟨r, hr, hplain⟩ := hp
    obtain ⟨l, block, before, run, after, lies⟩ := exists_lies_of_at? done sound traced hr
    have hm : (a.prologue l).length ≤ m := by
      by_contra hlt
      simp [lies.isMoveParameter_of_lt (Nat.lt_of_not_le hlt) hr] at hplain
    obtain ⟨n, rfl⟩ := Nat.exists_eq_add_of_le hm
    obtain ⟨e, he, -⟩ := lies.at?_run.mp hr
    have hlt : n < run.length := (List.getElem?_eq_some_iff.mp he).1
    refine ⟨before.length + n, ?_, lies.image sound hlt⟩
    exact (List.getElem?_eq_some_iff.mp ((lies.spans.getElem?_run hlt).trans he)).1

theorem moves_first {r : Instruction Register} (hr : body.at? ⟨k, n⟩ = some r)
    (hmove : r.isMoveParameter = true) :
    k = 0 ∧ n < (a.image log 0).offset := by
  obtain ⟨l, block, before, run, after, lies⟩ := exists_lies_of_at? done sound traced hr
  have hn : n < (a.prologue l).length := by
    by_contra hge
    obtain ⟨n, rfl⟩ := Nat.exists_eq_add_of_le (Nat.le_of_not_lt hge)
    obtain ⟨e, he, -⟩ := lies.at?_run.mp hr
    obtain ⟨r', hr', hplain⟩ := lies.isCode plain (List.getElem?_eq_some_iff.mp he).1
    obtain rfl : r = r' := Option.some.inj (hr.symm.trans hr')
    simp [hmove] at hplain
  have hl : l = ⟨a.body, 0⟩ := by
    by_contra hne
    simp [prologue_of_ne hne] at hn
  subst hl
  obtain ⟨block, run, after, entry⟩ := entry_lies done sound traced
  have hnumber {k : Nat} := idxOf?_eq_some_iff_getElem? (nodup_surviving sound)
    (x := ⟨a.body, 0⟩) (k := k)
  have hk := (hnumber.mpr lies.number).symm.trans (hnumber.mpr entry.number)
  rw [image_zero done sound traced]
  exact ⟨Option.some.inj hk, hn⟩

theorem refines : Refines log a.register body (a.image log) where
  bijective := image_bijOn done sound traced plain
  instruction := fun i e he => by
    obtain ⟨k, block, before, run, after, n, lies, rfl, hrun⟩ := exists_lies done sound traced he
    rw [lies.image sound (List.getElem?_eq_some_iff.mp hrun).1]
    exact lies.exists_at? hrun
  ordered := fun i j hij hj hblock => by
    have hoffset := image_offset done sound traced (Nat.lt_trans hij hj) hj hblock
    omega
  entry := by
    obtain ⟨block, run, after, lies⟩ := entry_lies done sound traced
    exact lies.settle_start sound plain
  moves := fun ⟨k, m⟩ r hr hmove => moves_first done sound traced plain hr hmove
  flow := fun i e he => continues done sound traced plain he

end Finished

/-- Whatever calls were made on a body, if it finishes, then with every instruction that was appended
at a place of its own, its operands in their registers, and control passing between the places as it
does in the order of appending and by the labels of jumps. -/
theorem finish_refines (id : BodyId) (method : MethodId) (isStatic : Bool)
    (history : List Operation) (body : MethodBody)
    (h : ((start id method isStatic).runAll history).finish.result = .ok body) :
    ∃ image, Refines ((start id method isStatic).log history)
      ((start id method isStatic).runAll history).finish.state.register body image := by
  obtain ⟨steps, done⟩ := finish_steps h
  have sound := steps.sound (start_sound id method isStatic)
  have traced := steps.traced (start_sound id method isStatic) (start_traced id method isStatic)
  refine ⟨_, refines done sound traced fun e he => ?_⟩
  obtain ⟨c, -, emits⟩ := steps.emits e he
  exact emits.plain

end Assembler

namespace Reduction

theorem finished_refines :
    ((Assembler.start id method false).runAll calls).finish.result = .ok finished ∧
      ((Assembler.start id method false).log calls).length = 6 ∧
      ∃ image, Refines ((Assembler.start id method false).log calls)
        ((Assembler.start id method false).runAll calls).finish.state.register finished image :=
  ⟨calls_finish, by decide,
    Assembler.finish_refines id method false calls finished calls_finish⟩

end Reduction
end Dalvik
