import Dalvik.Proofs.CallResults
import Dalvik.Proofs.Tiling
import Mathlib.Logic.Relation

/-! Where control enters a finished body. The first block moves each argument to its register, and nothing
else in the body does. Control comes back to that block only along edges that calls on the body asked for. -/
namespace Dalvik

namespace Assembler

variable {a : Assembler} {log : List Entry} {body : MethodBody} {moves : List (Instruction Register)}
  {k : Nat} {x : Local}

def Moved (a : Assembler) (body : MethodBody) (moves : List (Instruction Register)) (k : Nat)
    (x : Local) : Prop :=
  ∃ r index, a.register x = .ok r ∧ r.type = x.type ∧ moves[k]? = some (.moveParameter r index) ∧
    r.number.toNat = body.registers.toNat - body.parameterRegisters.toNat + index.toNat

/-- The first block: the moves of the arguments, the receiver first, and then the code that was appended
before anything else. -/
structure Entrance (a : Assembler) (body : MethodBody) (method : MethodId) (isStatic : Bool)
    (log : List Entry) (moves rest : List (Instruction Register)) : Prop where
  block : ∃ block, body.blocks[0]? = some block ∧ block.id = 0 ∧ block.instructions = moves ++ rest
  code : ∃ run after, log = run ++ after ∧ (∀ e ∈ run, e.block = ⟨a.body, 0⟩) ∧
    run.mapM (fun e => e.instruction.traverse a.register) = .ok rest
  nonempty : rest ≠ []
  count : moves.length = (argumentTypes method isStatic).length
  inside : body.parameterRegisters ≤ body.registers
  receiver : isStatic = false → ∃ x, a.askReceiver method.owner = .ok x ∧ x.type = method.owner ∧
    a.Moved body moves 0 x
  parameter : ∀ i type, method.parameters[i]? = some type → ∃ x, a.askParameter i type = .ok x ∧
    x.type = type ∧ a.Moved body moves (i + if isStatic then 0 else 1) x
  only : ∀ p r index, body.at? p = some (.moveParameter r index) →
    p.block = 0 ∧ p.offset < moves.length

theorem traverse_moveParameter {r : Register} (h : a.register x = .ok r) (index : UInt16) :
    (Instruction.moveParameter x index).traverse a.register = .ok (.moveParameter r index) := by
  simp only [Instruction.traverse, h]
  rfl

theorem Numbered.moved (numbered : a.Numbered) (done : a.Completes body)
    (hmoves : (Placement.argumentMoves 0 a.parameters.toList).mapM (·.traverse a.register) = .ok moves)
    (hx : a.parameters[k]? = some x) : a.Moved body moves k x := by
  obtain ⟨frame, hframe, hregisters, hparameters⟩ := done.frame
  obtain ⟨-, -, tiles⟩ := numbered.argumentsTile hframe
  have hx : a.parameters.toList[k]? = some x := by rw [Array.getElem?_toList, hx]
  obtain ⟨r, hr, hnumber⟩ := tiles.register hx
  have hmove := Placement.getElem?_argumentMoves hx 0
  rw [Nat.zero_add] at hmove
  refine ⟨r, _, hr, register_keepsTypes x r hr,
    (getElem?_of_mapM hmoves k _).mpr ⟨_, hmove, traverse_moveParameter hr _⟩, ?_⟩
  obtain ⟨_, laid⟩ := numbered.laid frame hframe
  have hindex := laid.toNat_ofNat (Nat.le_of_add_right_le (totalWidth_take_add_le hx))
  rw [hnumber, hregisters, hparameters, hindex]

theorem Completes.entrance (done : a.Completes body) (sound : a.Sound) (traced : a.Traced log)
    (numbered : a.Numbered) (plain : ∀ e ∈ log, e.instruction.isMoveParameter = false) :
    ∃ moves rest, a.Entrance body a.method a.isStatic log moves rest := by
  obtain ⟨block, run, after, lies⟩ := entry_lies done sound traced
  obtain ⟨frame, hframe, hregisters, hparameters⟩ := done.frame
  have hprologue : a.prologue ⟨a.body, 0⟩ = Placement.argumentMoves 0 a.parameters.toList := by
    simp [prologue, hframe]
  have hcode := lies.code
  simp only [List.mapM_append, bind_eq_ok, pure_eq_ok] at hcode
  obtain ⟨moves, hmoves, rest, hrest, hblock⟩ := hcode
  rw [List.mapM_map] at hrest
  have hlength : moves.length = (a.prologue ⟨a.body, 0⟩).length := length_of_mapM hmoves
  rw [hprologue] at hmoves
  refine ⟨moves, rest,
    { block := ⟨block, lies.placed, (done.wellFormed_block sound lies.placed).1, hblock.symm⟩
      code := ⟨run, after, lies.spans.split, lies.spans.inside, hrest⟩
      nonempty := ?_
      count := ?_
      inside := ?_
      receiver := fun hstatic => ?_
      parameter := fun i type htype => ?_
      only := fun p r index hp => ?_ }⟩
  · rw [← List.length_pos_iff, length_of_mapM hrest]
    exact List.length_pos_iff.mpr lies.nonempty
  · rw [hlength, hprologue, Placement.length_argumentMoves, ← numbered.types, List.length_map]
  · rw [hregisters, hparameters]
    exact (numbered.argumentsTile hframe).2.1
  · obtain ⟨x, hx, hasked, htype⟩ := numbered.askReceiver_eq hstatic
    exact ⟨x, hasked, htype, numbered.moved done hmoves hx⟩
  · obtain ⟨x, hx, hasked, htype⟩ := numbered.askParameter_eq htype
    exact ⟨x, hasked, htype, numbered.moved done hmoves hx⟩
  · obtain ⟨hentry, hoffset⟩ := moves_first done sound traced plain (k := p.block) (n := p.offset) hp rfl
    rw [image_zero done sound traced] at hoffset
    exact ⟨hentry, hlength ▸ hoffset⟩

/-- Whatever calls were made on a body, if it finishes, then its first block is that of the label that was
open at the start, and begins with the moves of the arguments; and there are no others. -/
theorem finish_entrance (id : BodyId) (method : MethodId) (isStatic : Bool)
    (history : List Operation) (body : MethodBody)
    (h : ((start id method isStatic).runAll history).finish.result = .ok body) :
    let last := ((start id method isStatic).runAll history).finish.state
    last.surviving[0]? = (start id method isStatic).current ∧
      ∃ moves rest, last.Entrance body method isStatic ((start id method isStatic).log history)
        moves rest := by
  intro last
  obtain ⟨steps, done⟩ := finish_steps h
  have sound := steps.sound (start_sound id method isStatic)
  have traced := steps.traced (start_sound id method isStatic) (start_traced id method isStatic)
  have numbered := steps.numbered (start_numbered id method isStatic)
  have same := steps.sameMethod
  have entrance := done.entrance sound traced numbered fun e he => by
    obtain ⟨c, -, emits⟩ := steps.emits e he
    exact emits.plain
  rw [same.method, same.isStatic] at entrance
  refine ⟨?_, entrance⟩
  rw [done.entry sound traced, same.body]
  rfl

end Assembler

namespace Reduction

theorem finished_entrance :
    ((Assembler.start id method false).runAll calls).finish.result = .ok finished ∧
      let last := ((Assembler.start id method false).runAll calls).finish.state
      last.surviving[0]? = (Assembler.start id method false).current ∧
        ∃ moves rest, last.Entrance finished method false
          ((Assembler.start id method false).log calls) moves rest :=
  ⟨calls_finish, Assembler.finish_entrance id method false calls finished calls_finish⟩

end Reduction

namespace MethodBody

variable {body : MethodBody} {p q : Position}

/-- Control can get from one place to the next. It leaves a block at the end or where an exception is
thrown, so here it may do so anywhere. -/
inductive Passes (body : MethodBody) : Position → Position → Prop
  | next {k o : Nat} {b : BasicBlock} (hb : body.blocks[k]? = some b)
      (ho : o + 1 < b.instructions.length) : Passes body ⟨k, o⟩ ⟨k, o + 1⟩
  | edge {k s : Nat} (o : Nat) {b : BasicBlock} (hb : body.blocks[k]? = some b)
      (hs : s ∈ b.successors) : Passes body ⟨k, o⟩ ⟨s, 0⟩

/-- Control does not come back to the first block, so no argument is moved a second time or after other
code. -/
structure EntersOnce (body : MethodBody) : Prop where
  edges : ∀ b ∈ body.blocks, 0 ∉ b.successors
  once : ∀ p r index, body.at? p = some (.moveParameter r index) →
    ¬Relation.TransGen body.Passes p p
  first : ∀ p q r index, body.IsCode p → body.at? q = some (.moveParameter r index) →
    ¬Relation.TransGen body.Passes p q

theorem before_of_passes (edges : ∀ b ∈ body.blocks, 0 ∉ b.successors) (h : body.Passes p q)
    (hq : q.block = 0) : p.block = 0 ∧ p.offset < q.offset := by
  cases h with
  | next hb ho => exact ⟨hq, Nat.lt_succ_self _⟩
  | edge o hb hs =>
    obtain rfl : _ = 0 := hq
    exact absurd hs (edges _ (List.mem_of_getElem? hb))

theorem before_of_path (edges : ∀ b ∈ body.blocks, 0 ∉ b.successors)
    (h : Relation.TransGen body.Passes p q) (hq : q.block = 0) :
    p.block = 0 ∧ p.offset < q.offset := by
  induction h with
  | single h => exact before_of_passes edges h hq
  | tail _ h ih =>
    obtain ⟨hmiddle, hlt⟩ := before_of_passes edges h hq
    obtain ⟨hp, hlt'⟩ := ih hmiddle
    exact ⟨hp, Nat.lt_trans hlt' hlt⟩

/-- The edges to the first block, whose label is `entry`: each is there because a call on the body named
the label, and jumps and branches that did so are among them. -/
structure Reentered (body : MethodBody) (granted : Operation → Prop) (entry : Label) : Prop where
  primary : ∀ (q : Nat) (b : BasicBlock), body.blocks[q]? = some b → b.primary = some 0 →
    b.last? = some .goto ∧ granted (.jump entry)
  alternate : ∀ (q : Nat) (b : BasicBlock), body.blocks[q]? = some b → b.alternate = some 0 →
    (∃ i, b.last? = some i ∧ i.flow = .branch) ∧
      ∃ comparison x y, granted (.branch comparison entry x y)
  handlers : ∀ (q : Nat) (b : BasicBlock), body.blocks[q]? = some b → ∀ h ∈ b.handlers,
    h.block = 0 → granted (.addCatch h.exception entry)
  jumps : granted (.jump entry) → ∃ b ∈ body.blocks, b.primary = some 0
  branches : ∀ comparison x y, granted (.branch comparison entry x y) →
    ∃ b ∈ body.blocks, b.alternate = some 0

theorem Reentered.edges {granted : Operation → Prop} {entry : Label}
    (reentered : body.Reentered granted entry)
    (h : ∀ operation, granted operation → operation.leadsTo entry = false) :
    ∀ b ∈ body.blocks, 0 ∉ b.successors := by
  intro b hb hentry
  obtain ⟨q, hq⟩ := List.getElem?_of_mem hb
  simp only [BasicBlock.successors, List.mem_append, Option.mem_toList, List.mem_map] at hentry
  obtain (hentry | hentry) | ⟨handler, hhandler, hentry⟩ := hentry
  · have hjump := h _ (reentered.primary q b hq hentry).2
    simp [Operation.leadsTo] at hjump
  · obtain ⟨-, comparison, x, y, granted⟩ := reentered.alternate q b hq hentry
    have hbranch := h _ granted
    simp [Operation.leadsTo] at hbranch
  · have hcatch := h _ (reentered.handlers q b hq handler hhandler hentry)
    simp [Operation.leadsTo] at hcatch

end MethodBody

namespace Assembler

variable {a : Assembler} {history before : List Operation} {operation : Operation} {l : Label}
  {reply : Reply} {log : List Entry} {body : MethodBody} {e : Entry}

theorem appendTo_logs {i : Instruction Local} (h : (a.appendTo l i).result = .ok ()) :
    ∃ m, entries (a.appendTo l i).events = [⟨m, i, some l⟩] := by
  unfold appendTo at h ⊢
  cases hadopt : a.adopt l with
  | error e =>
    rw [hadopt] at h
    cases h
  | ok b =>
    rw [hadopt] at h
    obtain ⟨e, hfail⟩ | ⟨-, hentries⟩ := append_logs (a := b) i (some l)
    · simp only [hfail] at h
      cases h
    · exact hentries

theorem mem_log_of_call (after : List Operation)
    (he : e ∈ entries ((a.runAll before).run operation).events) :
    e ∈ a.log (before ++ operation :: after) := by
  induction before generalizing a with
  | nil => exact log_cons ▸ List.mem_append_left _ he
  | cons first before ih => exact log_cons ▸ List.mem_append_right _ (ih he)

theorem run_jump_logs (h : (a.run (.jump l)).result = .ok reply) :
    ∃ m, entries (a.run (.jump l)).events = [⟨m, .goto, some l⟩] := by
  cases hresult : (a.jump l).result with
  | error e =>
    simp only [run, Outcome.map, hresult] at h
    cases h
  | ok => exact appendTo_logs hresult

theorem run_branch_logs {comparison : Comparison} {x : Local} {y : Option Local}
    (h : (a.run (.branch comparison l x y)).result = .ok reply) :
    ∃ m, entries (a.run (.branch comparison l x y)).events = [⟨m, .branch comparison x y, some l⟩] := by
  cases hresult : (a.branch comparison l x y).result with
  | error e =>
    simp only [run, Outcome.map, hresult] at h
    cases h
  | ok =>
    obtain ⟨e, hfail⟩ | ⟨-, hbranch⟩ := branch_cases (a := a) comparison l x y
    · rw [hfail] at hresult
      cases hresult
    · simp only [run, hbranch] at hresult ⊢
      exact appendTo_logs hresult

section Finished

variable (done : a.Completes body) (sound : a.Sound) (traced : a.Traced log)
include done sound traced

theorem lies_of_exit (he : e ∈ log) (hflow : e.instruction.flow ≠ .next) :
    ∃ q b before run after, Lies a log body e.block q b before (run ++ [e]) after := by
  obtain ⟨i, hi⟩ := List.getElem?_of_mem he
  obtain ⟨q, b, before, run, after, n, lies, -, hn⟩ := exists_lies done sound traced hi
  obtain ⟨run, last, rfl⟩ := (List.eq_nil_or_concat' run).resolve_left lies.nonempty
  obtain hinside | hlast := List.mem_append.mp (List.mem_of_getElem? hn)
  · have closed := done.closed sound (List.mem_of_getElem? lies.number)
    exact absurd ((lies.spans.ends closed).1 e hinside) hflow
  · obtain rfl := List.mem_singleton.mp hlast
    exact ⟨q, b, before, run, after, lies⟩

theorem exists_primary {k : Nat} (hk : a.surviving[k]? = some l) (he : e ∈ log)
    (hgoto : e.instruction.flow = .goto) (ht : e.target = some l) :
    ∃ b ∈ body.blocks, b.primary = some k := by
  obtain ⟨q, b, before, run, after, lies⟩ := lies_of_exit done sound traced he (by simp [hgoto])
  refine ⟨b, List.mem_of_getElem? lies.placed, ?_⟩
  rw [lies.primary, (lies.spans.linked e (by simp)).goto hgoto, ht]
  exact number_of_getElem? sound hk

theorem exists_alternate {k : Nat} (hk : a.surviving[k]? = some l) (he : e ∈ log)
    (hbranch : e.instruction.flow = .branch) (ht : e.target = some l) :
    ∃ b ∈ body.blocks, b.alternate = some k := by
  obtain ⟨q, b, before, run, after, lies⟩ := lies_of_exit done sound traced he (by simp [hbranch])
  refine ⟨b, List.mem_of_getElem? lies.placed, ?_⟩
  rw [lies.alternate, (lies.spans.linked e (by simp)).branch hbranch, ht]
  exact number_of_getElem? sound hk

/-- With no edge to the first block, the moves there are over once control has left them. -/
theorem entersOnce (plain : ∀ e ∈ log, e.instruction.isMoveParameter = false)
    (edges : ∀ b ∈ body.blocks, 0 ∉ b.successors) : body.EntersOnce where
  edges := edges
  once := fun p r index hp hpath => by
    have hentry := (moves_first done sound traced plain (k := p.block) (n := p.offset) hp rfl).1
    exact absurd (MethodBody.before_of_path edges hpath hentry).2 (Nat.lt_irrefl _)
  first := fun p q r index hp hq hpath => by
    obtain ⟨hentry, hoffset⟩ :=
      moves_first done sound traced plain (k := q.block) (n := q.offset) hq rfl
    obtain ⟨hblock, hlt⟩ := MethodBody.before_of_path edges hpath hentry
    obtain ⟨block, run, after, lies⟩ := entry_lies done sound traced
    rw [image_zero done sound traced] at hoffset
    obtain ⟨i, hi, hcode⟩ := hp
    obtain ⟨k, n⟩ := p
    obtain rfl : k = 0 := hblock
    have hmove := lies.isMoveParameter_of_lt (Nat.lt_trans hlt hoffset) hi
    rw [hcode] at hmove
    cases hmove

end Finished

section History

variable {id : BodyId} {method : MethodId} {isStatic : Bool}

theorem reentered (hlog : (start id method isStatic).log history = log) (done : a.Completes body)
    (sound : a.Sound) (traced : a.Traced log)
    (shielded : a.Shielded ((start id method isStatic).covered [] history)) :
    body.Reentered ((start id method isStatic).Granted history) ⟨a.body, 0⟩ := by
  obtain ⟨block, run, after, lies⟩ := entry_lies done sound traced
  refine
    { primary := fun q b hq hb => ?_
      alternate := fun q b => alternate_granted hlog done sound traced lies.number
      handlers := fun q b hq h => handler_granted hlog done sound traced shielded lies.number hq
      jumps := ?_
      branches := ?_ }
  · -- no code comes before that of the first block, so nothing falls through to it
    obtain ⟨e, he, ht, hgoto, hlast⟩ | ⟨i, d, hi, -⟩ := primary_edge done sound traced lies hq hb
    · refine ⟨hlast, ?_⟩
      obtain ⟨-, granted⟩ | ⟨comparison, x, y, hbranch, -⟩ | ⟨-, hmark⟩ := granted_of_target
        (start_sound id method isStatic) (start_traced id method isStatic) (hlog ▸ he) ht
      · exact granted
      · simp [hgoto] at hbranch
      · obtain ⟨i, d, hi, -⟩ := hmark 0 (by rw [hlog]; exact lies.spans.start lies.nonempty)
        cases hi
    · cases hi
  · rintro ⟨before, after, reply, rfl, hreply⟩
    obtain ⟨m, hentries⟩ := run_jump_logs hreply
    have he := mem_log_of_call after (hentries ▸ List.mem_singleton_self _)
    exact exists_primary done sound traced lies.number (hlog ▸ he) rfl rfl
  · rintro comparison x y ⟨before, after, reply, rfl, hreply⟩
    obtain ⟨m, hentries⟩ := run_branch_logs hreply
    have he := mem_log_of_call after (hentries ▸ List.mem_singleton_self _)
    exact exists_alternate done sound traced lies.number (hlog ▸ he) rfl rfl

end History

/-- Whatever calls were made on a body, if it finishes, then an edge leads to its first block only if a call
named the label that was open at the start. If none did, then no argument is moved twice. -/
theorem finish_reentered (id : BodyId) (method : MethodId) (isStatic : Bool)
    (history : List Operation) (body : MethodBody)
    (h : ((start id method isStatic).runAll history).finish.result = .ok body) :
    ∃ entry, (start id method isStatic).current = some entry ∧
      body.Reentered ((start id method isStatic).Granted history) entry ∧
      ((∀ operation, (start id method isStatic).Granted history operation →
        operation.leadsTo entry = false) → body.EntersOnce) := by
  obtain ⟨done, sound, traced, shielded⟩ := finish_traced h
  have steps := (finish_steps h).1
  have reentered := reentered rfl done sound traced shielded
  rw [steps.sameMethod.body] at reentered
  refine ⟨⟨id, 0⟩, rfl, reentered, fun hnone => ?_⟩
  refine entersOnce done sound traced (fun e he => ?_) (reentered.edges hnone)
  obtain ⟨c, -, emits⟩ := steps.emits e he
  exact emits.plain

end Assembler

namespace Reduction

theorem finished_entersOnce :
    ((Assembler.start id method false).runAll calls).finish.result = .ok finished ∧
      finished.EntersOnce := by
  obtain ⟨entry, hentry, -, once⟩ :=
    Assembler.finish_reentered id method false calls finished calls_finish
  obtain rfl : ⟨id, 0⟩ = entry := Option.some.inj hentry
  have elsewhere : ∀ operation ∈ calls, operation.leadsTo ⟨id, 0⟩ = false := by decide
  refine ⟨calls_finish, once ?_⟩
  rintro operation ⟨before, after, reply, hcalls, -⟩
  apply elsewhere
  rw [hcalls]
  exact List.mem_append_right _ List.mem_cons_self

end Reduction

/-! A loop over the whole body: the argument is overwritten, and the jump leads back to where it is moved. -/
namespace Rewound

def id : BodyId := ⟨0⟩
def method : MethodId := ⟨.root, ⟨"rewind", by decide⟩, .void, [.int]⟩

def argument : Local := ⟨id, 0, .int⟩
def entry : Label := ⟨id, 0⟩

def calls : List Operation := [.emit (.const argument (.int 7)), .jump entry]

def v0 : Register := ⟨0, .int⟩

def finished : MethodBody where
  blocks := [⟨0, [.moveParameter v0 0, .const v0 (.int 7), .goto], some 0, none, []⟩]
  registers := 1
  parameterRegisters := 1

theorem calls_finish :
    ((Assembler.start id method true).runAll calls).finish.result = .ok finished := by
  decide

/-- The first block leads to itself, so the move of the argument is on a path back to it. -/
theorem argument_moved_again :
    ((Assembler.start id method true).runAll calls).finish.result = .ok finished ∧
      (∃ b ∈ finished.blocks, 0 ∈ b.successors) ∧
      finished.at? ⟨0, 0⟩ = some (.moveParameter v0 0) ∧
      Relation.TransGen finished.Passes ⟨0, 0⟩ ⟨0, 0⟩ := by
  refine ⟨calls_finish, ⟨_, List.mem_singleton_self _, by decide⟩, rfl, ?_⟩
  have again : finished.Passes ⟨0, 2⟩ ⟨0, 0⟩ := .edge 2 rfl (by decide)
  have code : finished.Passes ⟨0, 1⟩ ⟨0, 2⟩ := .next rfl (by decide)
  have move : finished.Passes ⟨0, 0⟩ ⟨0, 1⟩ := .next rfl (by decide)
  exact .tail (.tail (.single move) code) again

end Rewound
end Dalvik
