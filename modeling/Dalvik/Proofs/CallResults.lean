import Dalvik.Proofs.Provenance

/-! Results of calls. The instruction that takes the result of a call is appended together with the call, and
it stays right behind it. If a catch clause ends the block between the two, then the second begins a new
block, to which the call leads; any other edge to that block is there because a call on the body named its
label. -/
namespace Dalvik

namespace Instruction

def Feeds [Typed R] (i : Instruction R) (dst : R) : Prop :=
  ∃ kind method args, i = .invoke kind method args ∧ method.returns ≠ .void ∧
    Ty.Compatible (Typed.type dst) method.returns

theorem Feeds.traverse [Typed R] [Typed S] {f : R → Except ε S} (keeps : KeepsTypes f)
    {i : Instruction R} {j : Instruction S} {x : R} {y : S} (feeds : i.Feeds x)
    (hi : i.traverse f = .ok j) (hx : f x = .ok y) : j.Feeds y := by
  obtain ⟨kind, method, args, rfl, hvalue, hfits⟩ := feeds
  simp only [Instruction.traverse, bind_eq_ok, pure_eq_ok] at hi
  obtain ⟨replaced, -, rfl⟩ := hi
  exact ⟨kind, method, replaced, rfl, hvalue, keeps x y hx ▸ hfits⟩

theorem traverse_eq_moveResult {f : R → Except ε S} {i : Instruction R} {dst : S}
    (h : i.traverse f = .ok (.moveResult dst)) : ∃ x, i = .moveResult x ∧ f x = .ok dst := by
  cases i with
  | moveResult x =>
    simp only [traverse, bind_eq_ok, pure_eq_ok] at h
    obtain ⟨y, hy, hsame⟩ := h
    cases hsame
    exact ⟨x, rfl, hy⟩
  | branch comparison a b =>
    cases b <;> simp [traverse] at h
  | _ => simp [traverse] at h

end Instruction

def Answered (code : List (Instruction Local)) : Prop :=
  ∀ n x, code[n]? = some (.moveResult x) → ∃ m i, n = m + 1 ∧ code[m]? = some i ∧ i.Feeds x

section Answered

variable {code later : List (Instruction Local)}

theorem answered_of_notMem (h : ∀ x, .moveResult x ∉ code) : Answered code :=
  fun _ x hx => absurd (List.mem_of_getElem? hx) (h x)

theorem Answered.append (first : Answered code) (second : Answered later) :
    Answered (code ++ later) := by
  intro n x hx
  by_cases hn : n < code.length
  · rw [List.getElem?_append_left hn] at hx
    obtain ⟨m, i, rfl, hi, feeds⟩ := first n x hx
    exact ⟨m, i, rfl, by rw [List.getElem?_append_left (by omega), hi], feeds⟩
  · rw [List.getElem?_append_right (by omega)] at hx
    obtain ⟨m, i, hm, hi, feeds⟩ := second (n - code.length) x hx
    refine ⟨code.length + m, i, by omega, ?_, feeds⟩
    rw [List.getElem?_append_right (by omega), Nat.add_sub_cancel_left, hi]

theorem Answered.of_append (h : Answered (code ++ later)) : Answered code := by
  intro n x hx
  have hn := (List.getElem?_eq_some_iff.mp hx).1
  obtain ⟨m, i, rfl, hi, feeds⟩ := h n x (by rw [List.getElem?_append_left hn, hx])
  exact ⟨m, i, rfl, by rw [List.getElem?_append_left (by omega)] at hi; exact hi, feeds⟩

end Answered

namespace Statement

theorem invoke_answered {call : Call} {target : MethodId} {result : Option Local} {args : List Local}
    {stored : List (Instruction Local)} (h : checkResult target result = .ok stored) :
    Answered (.invoke call.kind target (call.receiver?.toList ++ args) :: stored) := by
  cases result with
  | none =>
    obtain rfl := pure_eq_ok.mp h
    exact answered_of_notMem (by simp)
  | some x =>
    simp only [checkResult] at h
    split at h
    · obtain rfl := pure_eq_ok.mp h
      exact answered_of_notMem (by simp)
    · rename_i hvoid
      simp only [bind_eq_ok, Typing.assignable_eq_ok, pure_eq_ok] at h
      obtain ⟨_, hfits, rfl⟩ := h
      have hvalue : target.returns ≠ .void := by
        intro hreturns
        simp [hreturns, Ty.isVoid] at hvoid
      intro n y hy
      obtain rfl : n = 1 := by
        have hn := (List.getElem?_eq_some_iff.mp hy).1
        simp only [List.length_cons, List.length_nil] at hn
        by_contra hne
        obtain rfl : n = 0 := by omega
        simp at hy
      obtain rfl : x = y := by simpa using hy
      exact ⟨0, _, rfl, rfl, call.kind, target, _, rfl, hvalue, hfits⟩

theorem instructions_answered {method : MethodId} {statement : Statement}
    {is : List (Instruction Local)} (h : statement.instructions method = .ok is) : Answered is := by
  cases statement with
  | invoke call target result args =>
    simp only [instructions, bind_eq_ok, pure_eq_ok] at h
    obtain ⟨_, -, stored, hresult, rfl⟩ := h
    exact invoke_answered hresult
  | cast dst src =>
    rw [instructions_eq_ok h, code]
    split <;> exact answered_of_notMem (by simp)
  | _ =>
    rw [instructions_eq_ok h]
    exact answered_of_notMem (by simp [code])

end Statement

namespace Assembler

variable {a : Assembler} {history : List Operation} {operation : Operation}

theorem events_andThen {first : Outcome σ α} {next : σ → α → Outcome σ β} {value : α}
    (h : first.result = .ok value) :
    (first.andThen next).events = first.events ++ (next first.state value).events := by
  obtain ⟨result, state, events⟩ := first
  obtain rfl : result = .ok value := h
  rfl

theorem appendAll_append (is : List (Instruction Local)) :
    ∃ rest, is = (entries (a.appendAll is).events).map Entry.instruction ++ rest := by
  induction is generalizing a with
  | nil => exact ⟨[], rfl⟩
  | cons i is ih =>
    obtain ⟨e, hfail⟩ | ⟨hresult, m, hentries⟩ := append_logs (a := a) i none
    · refine ⟨i :: is, ?_⟩
      simp [appendAll, hfail, Outcome.fail, Outcome.andThen, entries]
    · obtain ⟨rest, hrest⟩ := ih (a := (a.append i none).state)
      refine ⟨rest, ?_⟩
      rw [appendAll, events_andThen hresult, entries_append, hentries, List.map_append,
        List.append_assoc, ← hrest]
      rfl

theorem run_answered (operation : Operation) :
    Answered ((entries (a.run operation).events).map Entry.instruction) := by
  have plain {i : Instruction Local} (hi : ∀ x, i ≠ .moveResult x)
      (h : ∀ e ∈ entries (a.run operation).events, e.instruction = i) :
      Answered ((entries (a.run operation).events).map Entry.instruction) := by
    apply answered_of_notMem
    intro x hx
    obtain ⟨e, he, hinstruction⟩ := List.mem_map.mp hx
    exact hi x ((h e he).symm.trans hinstruction)
  cases operation with
  | mark l => exact plain (by simp) mark_entries
  | jump l => exact plain (by simp) appendTo_entries
  | branch comparison l x y => exact plain (by simp) branch_entries
  | emit statement =>
    cases typed : statement.instructions a.method with
    | error e =>
      simp only [run, emit, typed]
      exact answered_of_notMem (by simp [Outcome.map, Outcome.fail, entries])
    | ok is =>
      simp only [run, emit, typed]
      obtain ⟨rest, hrest⟩ := appendAll_append (a := a) is
      have answered := Statement.instructions_answered typed
      rw [hrest] at answered
      exact answered.of_append
  | _ =>
    rw [entries_of_not_appends rfl]
    exact answered_of_notMem (by simp)

theorem log_answered (history : List Operation) :
    Answered ((a.log history).map Entry.instruction) := by
  induction history generalizing a with
  | nil => exact answered_of_notMem (by simp [log, journal, entries])
  | cons operation rest ih =>
    rw [log_cons, List.map_append]
    exact (run_answered operation).append ih

end Assembler

/-- Block `p` ends with a call whose result the register can take, and goes on in block `k`. -/
def MethodBody.CallsInto (body : MethodBody) (p k : Nat) (dst : Register) : Prop :=
  ∃ b i, body.blocks[p]? = some b ∧ b.last? = some i ∧ i.Feeds dst ∧ b.primary = some k

/-- Block `k` takes the result of the call that block `p` ends with. Every other edge to it is there
because one of the calls on the body named its label. -/
structure MethodBody.Resumes (body : MethodBody) (granted : Operation → Prop) (l : Label) (p k : Nat)
    (dst : Register) : Prop where
  call : body.CallsInto p k dst
  primary : ∀ (q : Nat) (b : BasicBlock), body.blocks[q]? = some b → b.primary = some k → q ≠ p →
    b.last? = some .goto ∧ granted (.jump l)
  alternate : ∀ (q : Nat) (b : BasicBlock), body.blocks[q]? = some b → b.alternate = some k →
    (∃ i, b.last? = some i ∧ i.flow = .branch) ∧ ∃ comparison x y, granted (.branch comparison l x y)
  handlers : ∀ (q : Nat) (b : BasicBlock), body.blocks[q]? = some b → ∀ h ∈ b.handlers,
    h.block = k → granted (.addCatch h.exception l)

def MethodBody.OnlyCalled (body : MethodBody) (k : Nat) (dst : Register) : Prop :=
  ∀ (q : Nat) (b : BasicBlock), body.blocks[q]? = some b → k ∈ b.successors → body.CallsInto q k dst

def Operation.leadsTo (l : Label) : Operation → Bool
  | .jump m => m = l
  | .branch _ m _ _ => m = l
  | .addCatch _ m => m = l
  | _ => false

theorem MethodBody.Resumes.onlyCalled {body : MethodBody} {granted : Operation → Prop} {l : Label}
    {p k : Nat} {dst : Register} (resumes : body.Resumes granted l p k dst)
    (h : ∀ operation, granted operation → operation.leadsTo l = false) : body.OnlyCalled k dst := by
  intro q b hq hk
  simp only [BasicBlock.successors, List.mem_append, Option.mem_toList, List.mem_map] at hk
  obtain (hk | hk) | ⟨handler, hhandler, hk⟩ := hk
  · by_cases hqp : q = p
    · exact hqp ▸ resumes.call
    · have hjump := h _ (resumes.primary q b hq hk hqp).2
      simp [Operation.leadsTo] at hjump
  · obtain ⟨-, comparison, x, y, granted⟩ := resumes.alternate q b hq hk
    have hbranch := h _ granted
    simp [Operation.leadsTo] at hbranch
  · have hcatch := h _ (resumes.handlers q b hq handler hhandler hk)
    simp [Operation.leadsTo] at hcatch

theorem exists_of_start? {log : List Entry} {l : Label} {j : Nat} (h : start? log l = some j) :
    ∃ e, log[j]? = some e ∧ e.block = l := by
  obtain ⟨hlt, hblock, -⟩ := List.findIdx?_eq_some_iff_getElem.mp h
  exact ⟨log[j], List.getElem?_eq_getElem hlt, by simpa using hblock⟩

namespace Assembler

variable {a : Assembler} {l : Label} {log before run after : List Entry} {cover : List Covered}
  {body : MethodBody} {block : BasicBlock} {k n j : Nat} {e d : Entry} {dst : Register} {x : Local}

theorem Lies.moveResult (lies : Lies a log body l k block before run after)
    (h : body.at? ⟨k, n⟩ = some (.moveResult dst)) :
    ∃ m e x, n = (a.prologue l).length + m ∧ run[m]? = some e ∧ e.instruction = .moveResult x ∧
      a.register x = .ok dst := by
  by_cases hn : n < (a.prologue l).length
  · exact absurd (lies.isMoveParameter_of_lt hn h) (by simp [Instruction.isMoveParameter])
  · obtain ⟨m, rfl⟩ := Nat.exists_eq_add_of_le (Nat.le_of_not_lt hn)
    obtain ⟨e, he, htraverse⟩ := lies.at?_run.mp h
    obtain ⟨x, hx, hregister⟩ := Instruction.traverse_eq_moveResult htraverse
    exact ⟨m, e, x, rfl, he, hx, hregister⟩

theorem Lies.length_of_next (lies : Lies a log body d.block k block before run after)
    (hd : run[n]? = some d) (he : log[before.length + n + 1]? = some e) (hother : e.block ≠ d.block) :
    run.length = n + 1 := by
  have hn := (List.getElem?_eq_some_iff.mp hd).1
  by_contra hne
  have hlt : n + 1 < run.length := by omega
  have hnext := lies.spans.getElem?_run hlt
  rw [← Nat.add_assoc, he] at hnext
  exact hother (lies.spans.inside e (List.mem_of_getElem? hnext.symm))

section Finished

variable (done : a.Completes body) (sound : a.Sound) (traced : a.Traced log)
include done sound traced

theorem callsInto_of_feeds (lies : Lies a log body l k block before run after)
    (hstart : before.length = j + 1) (hd : log[j]? = some d) (feeds : d.instruction.Feeds x)
    (hx : a.register x = .ok dst) :
    ∃ p, a.surviving[p]? = some d.block ∧ body.CallsInto p k dst := by
  obtain ⟨p, block', before', run', after', n, lies', rfl, hn⟩ := exists_lies done sound traced hd
  have hlstart := lies.spans.start lies.nonempty
  rw [hstart] at hlstart
  obtain ⟨e, he, hblock⟩ := exists_of_start? hlstart
  have hother : d.block ≠ l := by
    apply lies.spans.outside d (List.mem_append_left _ ?_)
    rw [lies.spans.split, List.append_assoc, List.getElem?_append_left (by omega)] at hd
    exact List.mem_of_getElem? hd
  have hlength := lies'.length_of_next hn he (hblock ▸ hother.symm)
  obtain ⟨run', d', rfl⟩ := (List.eq_nil_or_concat' run').resolve_left lies'.nonempty
  obtain rfl : n = run'.length := by simpa using hlength.symm
  obtain rfl : d' = d := by simpa using hn
  -- a call falls through, so the block goes on where the next instruction went
  obtain ⟨-, hexits⟩ := lies'.spans.ends (done.closed sound (List.mem_of_getElem? lies'.number))
  have hflow : d'.instruction.flow = .next := by
    obtain ⟨kind, method, args, hinvoke, -⟩ := feeds
    rw [hinvoke]
    rfl
  simp only [DraftBlock.Exits, hflow] at hexits
  obtain ⟨-, -, -, s, hprimary, -⟩ := hexits
  have hs := done.successor sound (List.mem_of_getElem? lies'.number)
    (s := s) (by simp [DraftBlock.successors, hprimary])
  have hnext := (lies'.spans.linked d' (by simp)).through (by simp [hflow]) s hprimary
  obtain ⟨e', he', hblock'⟩ :=
    exists_of_start? (start_of_continuation done sound traced lies'.spans hnext hs)
  obtain rfl : e = e' := Option.some.inj (he.symm.trans he')
  obtain rfl : s = l := hblock'.symm.trans hblock
  obtain ⟨r, htraverse, hlast⟩ := lies'.getLast?
  refine ⟨p, lies'.number, block', r, lies'.placed, hlast,
    feeds.traverse register_keepsTypes htraverse hx, ?_⟩
  rw [lies'.primary, hprimary]
  exact number_of_getElem? sound lies.number

theorem prologue_of_before (lies : Lies a log body l k block before run after)
    (hstart : before.length = j + 1) : a.prologue l = [] := by
  apply prologue_of_ne
  rintro rfl
  obtain ⟨block', run', after', lies'⟩ := entry_lies done sound traced
  have hfirst := lies.spans.start lies.nonempty
  rw [lies'.spans.start lies'.nonempty, hstart] at hfirst
  simp at hfirst

end Finished

section History

variable {id : BodyId} {method : MethodId} {isStatic : Bool} {history : List Operation}

theorem finish_traced
    (h : ((start id method isStatic).runAll history).finish.result = .ok body) :
    let last := ((start id method isStatic).runAll history).finish.state
    last.Completes body ∧ last.Sound ∧ last.Traced ((start id method isStatic).log history) ∧
      last.Shielded ((start id method isStatic).covered [] history) := by
  obtain ⟨steps, done⟩ := finish_steps h
  have sound := start_sound id method isStatic
  have shielded := (finish_ok h).1.shielded_silent rfl (Steps.sound (runAll_steps history) sound)
    (sound.runAll_shielded (start_shielded id method isStatic) history)
  exact ⟨done, steps.sound sound, steps.traced sound (start_traced id method isStatic), shielded⟩

section Edges

variable {q : Nat} {b : BasicBlock} (hlog : (start id method isStatic).log history = log)
  (done : a.Completes body) (sound : a.Sound) (traced : a.Traced log)
include hlog done sound traced

theorem alternate_granted (hk : a.surviving[k]? = some l) (hq : body.blocks[q]? = some b)
    (hb : b.alternate = some k) : (∃ i, b.last? = some i ∧ i.flow = .branch) ∧
      ∃ comparison x y, (start id method isStatic).Granted history (.branch comparison l x y) := by
  obtain ⟨e, he, ht, hflow, hlast⟩ := alternate_edge done sound traced hk hq hb
  obtain ⟨hgoto, -⟩ | ⟨comparison, y, z, -, granted⟩ | ⟨hgoto, -⟩ := granted_of_target
    (start_sound id method isStatic) (start_traced id method isStatic) (hlog ▸ he) ht
  · simp [hgoto, Instruction.flow] at hflow
  · exact ⟨hlast, comparison, y, z, granted⟩
  · simp [hgoto, Instruction.flow] at hflow

theorem handler_granted (shielded : a.Shielded ((start id method isStatic).covered [] history))
    (hk : a.surviving[k]? = some l) (hq : body.blocks[q]? = some b) {h : Handler}
    (hh : h ∈ b.handlers) (hb : h.block = k) :
    (start id method isStatic).Granted history (.addCatch h.exception l) := by
  rw [← hlog, ← covered_entries [] history] at traced
  obtain ⟨c, hc, hclause⟩ := handler_edge done sound traced shielded hk hq hh hb
  obtain hnone | granted := granted_of_clause hc hclause
  · cases hnone
  · exact granted

end Edges

/-- The block that takes a result has no edges but from the call and those that calls on the body asked
for. -/
theorem resumes_of_feeds (hlog : (start id method isStatic).log history = log)
    (done : a.Completes body) (sound : a.Sound) (traced : a.Traced log)
    (shielded : a.Shielded ((start id method isStatic).covered [] history))
    (lies : Lies a log body l k block before run after) (hstart : before.length = j + 1)
    (hd : log[j]? = some d) (feeds : d.instruction.Feeds x) (hx : a.register x = .ok dst) :
    ∃ p, body.Resumes ((start id method isStatic).Granted history) l p k dst := by
  obtain ⟨p, hp, call⟩ := callsInto_of_feeds done sound traced lies hstart hd feeds hx
  refine ⟨p, call, ?_, fun q b => alternate_granted hlog done sound traced lies.number,
    fun q b hq h => handler_granted hlog done sound traced shielded lies.number hq⟩
  intro q b hq hb hne
  obtain ⟨e, he, ht, hgoto, hlast⟩ | ⟨i, d', hi, hd', hd'q⟩ :=
    primary_edge done sound traced lies hq hb
  · refine ⟨hlast, ?_⟩
    obtain ⟨-, granted⟩ | ⟨comparison, y, z, hbranch, -⟩ | ⟨-, hmark⟩ := granted_of_target
      (start_sound id method isStatic) (start_traced id method isStatic) (hlog ▸ he) ht
    · exact granted
    · simp [hgoto] at hbranch
    · -- the code of a label that was marked starts after a jump, not after a call
      obtain ⟨i, d', hi, hd', hjump⟩ := hmark before.length
        (by rw [hlog]; exact lies.spans.start lies.nonempty)
      obtain rfl : i = j := by omega
      obtain rfl : d = d' := Option.some.inj (hd.symm.trans (hlog ▸ hd'))
      obtain ⟨kind, target, args, hinvoke, -⟩ := feeds
      simp [hjump] at hinvoke
  · obtain rfl : i = j := by omega
    obtain rfl : d = d' := Option.some.inj (hd.symm.trans hd')
    have hsame := (number_of_getElem? sound hp).symm.trans (number_of_getElem? sound hd'q)
    exact absurd (Option.some.inj hsame).symm hne

end History

/-- Whatever calls were made on a body, if it finishes, then whatever takes the result of a call stands
right behind a call that gives it: in the same block, or at the start of the block that the call leads
to. Other edges lead there only if a jump, a branch or a catch clause named the label of the block, and
there are none if no call did. -/
theorem finish_results (id : BodyId) (method : MethodId) (isStatic : Bool)
    (history : List Operation) (body : MethodBody)
    (h : ((start id method isStatic).runAll history).finish.result = .ok body) (k n : Nat)
    (dst : Register) (hresult : body.at? ⟨k, n⟩ = some (.moveResult dst)) :
    (∃ m i, n = m + 1 ∧ body.at? ⟨k, m⟩ = some i ∧ i.Feeds dst) ∨
      n = 0 ∧ ∃ l p,
        ((start id method isStatic).runAll history).finish.state.surviving[k]? = some l ∧
          body.Resumes ((start id method isStatic).Granted history) l p k dst ∧
          ((∀ operation, (start id method isStatic).Granted history operation →
            operation.leadsTo l = false) → body.OnlyCalled k dst) := by
  obtain ⟨done, sound, traced, shielded⟩ := finish_traced h
  obtain ⟨l, block, before, run, after, lies⟩ := exists_lies_of_at? done sound traced hresult
  obtain ⟨m, e, x, rfl, he, hx, hregister⟩ := lies.moveResult hresult
  have hlog := (lies.spans.getElem?_run (List.getElem?_eq_some_iff.mp he).1).trans he
  obtain ⟨j, i, hj, hi, feeds⟩ := log_answered (a := start id method isStatic) history
    (before.length + m) x (by simp [hlog, hx])
  rw [List.getElem?_map, Option.map_eq_some_iff] at hi
  obtain ⟨d, hd, rfl⟩ := hi
  cases m with
  | zero =>
    have hprologue := prologue_of_before done sound traced lies hj
    obtain ⟨p, resumes⟩ := resumes_of_feeds rfl done sound traced shielded lies hj hd feeds hregister
    exact .inr ⟨by rw [hprologue]; rfl, l, p, lies.number, resumes, resumes.onlyCalled⟩
  | succ m =>
    obtain rfl : j = before.length + m := by omega
    have hm : m < run.length := by
      have := (List.getElem?_eq_some_iff.mp he).1
      omega
    rw [lies.spans.getElem?_run hm] at hd
    obtain ⟨r, htraverse, hr⟩ := lies.exists_at? hd
    exact .inl ⟨_, r, rfl, hr, feeds.traverse register_keepsTypes htraverse hregister⟩

end Assembler

/-! A call under a catch clause, after which the caller jumps back to the open block. That block starts with
the instruction that takes the result. -/
namespace Recount

def id : BodyId := ⟨0⟩
def method : MethodId := ⟨.root, ⟨"recount", by decide⟩, .void, []⟩
def tally : MethodId := ⟨.root, ⟨"tally", by decide⟩, .int, []⟩

def total : Local := ⟨id, 0, .int⟩
def handler : Label := ⟨id, 1⟩
def resumed : Label := ⟨id, 2⟩

def calls : List Operation :=
  [.newLocal .int, .newLabel, .addCatch .throwable handler,
    .emit (.invoke .static tally (some total) []), .jump resumed, .mark handler, .emit .returnVoid]

def v0 : Register := ⟨0, .int⟩

def finished : MethodBody where
  blocks :=
    [⟨0, [.invoke .static tally []], some 2, none, [⟨.throwable, 1⟩]⟩,
      ⟨1, [.returnVoid], none, none, []⟩,
      ⟨2, [.moveResult v0, .goto], some 2, none, []⟩]
  registers := 1
  parameterRegisters := 0

theorem calls_finish :
    ((Assembler.start id method true).runAll calls).finish.result = .ok finished := by
  decide

theorem recount_results :
    (((Assembler.start id method true).runAll calls).finish.result = .ok finished ∧
      finished.at? ⟨2, 0⟩ = some (.moveResult v0)) ∧
    ((∃ m i, 0 = m + 1 ∧ finished.at? ⟨2, m⟩ = some i ∧ i.Feeds v0) ∨
      0 = 0 ∧ ∃ l p,
        ((Assembler.start id method true).runAll calls).finish.state.surviving[2]? = some l ∧
          finished.Resumes ((Assembler.start id method true).Granted calls) l p 2 v0 ∧
          ((∀ operation, (Assembler.start id method true).Granted calls operation →
            operation.leadsTo l = false) → finished.OnlyCalled 2 v0)) :=
  ⟨⟨calls_finish, rfl⟩,
    Assembler.finish_results id method true calls finished calls_finish 2 0 v0 rfl⟩

/-- The block that takes the result is also reached by the jump at its own end. -/
theorem result_revisited :
    ((Assembler.start id method true).runAll calls).finish.result = .ok finished ∧
      finished.at? ⟨2, 0⟩ = some (.moveResult v0) ∧ ¬finished.OnlyCalled 2 v0 := by
  refine ⟨calls_finish, rfl, fun h => ?_⟩
  obtain ⟨b, i, hb, hi, ⟨kind, target, args, rfl, -⟩, -⟩ := h 2 _ rfl (by decide)
  cases hb
  cases hi

end Recount
end Dalvik
