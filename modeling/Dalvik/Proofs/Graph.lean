import Dalvik.Proofs.Finished

/-! Finished bodies as graphs. Blocks are numbered by their places, every edge leads to a block, and
how control leaves a block is decided by its last instruction alone. -/
namespace Dalvik

namespace BasicBlock

/-- The edges that the last instruction of a block calls for. -/
def Ends (b : BasicBlock) (last : Instruction Register) : Prop :=
  match last.flow with
  | .next => last.canThrow = true ∧ b.alternate = none ∧ b.handlers ≠ [] ∧
      ∃ n, b.primary = some n ∧ ∀ h ∈ b.handlers, h.block ≠ n
  | .goto => (∃ t, b.primary = some t) ∧ b.alternate = none ∧ b.handlers = []
  | .branch => (∃ n t, b.primary = some n ∧ b.alternate = some t ∧ n ≠ t) ∧ b.handlers = []
  | .leave => b.successors = []
  | .raise => b.primary = none ∧ b.alternate = none

structure WellFormed (b : BasicBlock) (count : Nat) : Prop where
  ends : ∃ body last, b.instructions = body ++ [last] ∧ (∀ i ∈ body, i.flow = .next) ∧ b.Ends last
  inside : ∀ s ∈ b.successors, s < count
  distinct : b.handlers.Pairwise fun h k => h.exception ≠ k.exception
  thrown : ∀ h ∈ b.handlers, h.exception.isReference = true

end BasicBlock

structure MethodBody.WellFormed (body : MethodBody) : Prop where
  nonempty : body.blocks ≠ []
  numbered : ∀ (k : Nat) (block : BasicBlock), body.blocks[k]? = some block → block.id = k
  blocks : ∀ block ∈ body.blocks, block.WellFormed body.blocks.length

namespace Assembler

variable {a : Assembler} {l s : Label} {body : MethodBody} {block : BasicBlock} {k : Nat}

theorem Completes.number (done : a.Completes body) (sound : a.Sound) (hl : l ∈ a.surviving)
    (hs : s ∈ (a.block l).successors) : ∃ n, a.surviving.idxOf? s = some n := by
  obtain ⟨n, hn⟩ := List.getElem?_of_mem (done.successor sound hl hs)
  exact ⟨n, (idxOf?_eq_some_iff_getElem? (nodup_surviving sound)).mpr hn⟩

theorem label_eq_of_number (sound : a.Sound) {n : Nat} {t : Label}
    (hs : a.surviving.idxOf? s = some n) (ht : a.surviving.idxOf? t = some n) : s = t := by
  rw [idxOf?_eq_some_iff_getElem? (nodup_surviving sound)] at hs ht
  exact Option.some.inj (hs.symm.trans ht)

theorem number_lt {n : Nat} (hs : a.surviving.idxOf? s = some n) : n < a.surviving.length := by
  obtain ⟨h, -⟩ := List.idxOf?_eq_some_iff.mp hs
  exact h

theorem ends_of_finishBlock {last : Instruction Local} {code : List (Instruction Local)}
    {is : List (Instruction Register)} (hcode : (code ++ [last]).mapM (·.traverse a.register) = .ok is)
    (straight : ∀ i ∈ code, i.flow = .next) :
    ∃ body stop, is = body ++ [stop] ∧ (∀ i ∈ body, i.flow = .next) ∧
      last.traverse a.register = .ok stop := by
  rw [List.mapM_append] at hcode
  simp only [List.mapM_cons, List.mapM_nil, bind_eq_ok, pure_eq_ok] at hcode
  obtain ⟨body, hbody, _, ⟨stop, hend, _, rfl, rfl⟩, rfl⟩ := hcode
  refine ⟨body, stop, rfl, ?_, hend⟩
  intro i hi
  obtain ⟨n, hn⟩ := List.getElem?_of_mem hi
  obtain ⟨j, hj, htraverse⟩ := (getElem?_of_mapM hbody n i).mp hn
  rw [Instruction.flow_of_traverse htraverse]
  exact straight j (List.mem_of_getElem? hj)

theorem mem_handlers {labels : List Label} {clauses : List CatchClause} {h : Handler} :
    h ∈ clauses.filterMap (fun c => (labels.idxOf? c.handler).map fun n => ⟨c.exception, n⟩) ↔
      ∃ c ∈ clauses, labels.idxOf? c.handler = some h.block ∧ c.exception = h.exception := by
  simp only [List.mem_filterMap, Option.map_eq_some_iff]
  constructor
  · rintro ⟨c, hc, n, hn, rfl⟩
    exact ⟨c, hc, hn, rfl⟩
  · rintro ⟨c, hc, hn, hexception⟩
    exact ⟨c, hc, h.block, hn, by rw [hexception]⟩

theorem Completes.ends (done : a.Completes body) (sound : a.Sound) (hl : l ∈ a.surviving)
    (hblock : a.finishBlock a.surviving k l = .ok block) {last : Instruction Local}
    {stop : Instruction Register} (hstop : last.traverse a.register = .ok stop)
    (hexits : (a.block l).Exits last) : block.Ends stop := by
  obtain ⟨is, -, rfl⟩ := finishBlock_eq_ok.mp hblock
  have hnumber {s : Label} := done.number sound hl (s := s)
  unfold DraftBlock.Exits at hexits
  unfold BasicBlock.Ends
  rw [Instruction.flow_of_traverse hstop]
  cases hflow : last.flow with
  | next =>
    simp only [hflow] at hexits ⊢
    obtain ⟨hthrows, halternate, hhandlers, n, hprimary, hne⟩ := hexits
    obtain ⟨c, hc⟩ := List.exists_mem_of_ne_nil _ hhandlers
    obtain ⟨p, hp⟩ := hnumber (s := n) (by simp [DraftBlock.successors, hprimary])
    obtain ⟨q, hq⟩ := hnumber (s := c.handler)
      (List.mem_append_right _ (List.mem_map_of_mem hc))
    refine ⟨?_, by simp [halternate], ?_, p, by simp [hprimary, hp], ?_⟩
    · rw [Instruction.canThrow_of_traverse register_keepsTypes hstop, hthrows]
    · exact List.ne_nil_of_mem (mem_handlers.mpr ⟨c, hc, hq, rfl⟩ : ⟨c.exception, q⟩ ∈ _)
    · rintro h hh rfl
      obtain ⟨d, hd, hnumber, -⟩ := mem_handlers.mp hh
      exact hne d hd (label_eq_of_number sound hnumber hp)
  | goto =>
    simp only [hflow] at hexits ⊢
    obtain ⟨⟨t, hprimary⟩, halternate, hhandlers⟩ := hexits
    obtain ⟨p, hp⟩ := hnumber (s := t) (by simp [DraftBlock.successors, hprimary])
    exact ⟨⟨p, by simp [hprimary, hp]⟩, by simp [halternate], by simp [hhandlers]⟩
  | branch =>
    simp only [hflow] at hexits ⊢
    obtain ⟨⟨n, t, hprimary, halternate, hne⟩, hhandlers⟩ := hexits
    obtain ⟨p, hp⟩ := hnumber (s := n) (by simp [DraftBlock.successors, hprimary])
    obtain ⟨q, hq⟩ := hnumber (s := t) (by simp [DraftBlock.successors, halternate])
    refine ⟨⟨p, q, by simp [hprimary, hp], by simp [halternate, hq], ?_⟩, by simp [hhandlers]⟩
    rintro rfl
    exact hne (label_eq_of_number sound hp hq)
  | leave =>
    simp only [hflow] at hexits ⊢
    obtain ⟨hprimary, halternate, hhandlers⟩ := hexits
    simp [BasicBlock.successors, hprimary, halternate, hhandlers]
  | raise =>
    simp only [hflow] at hexits ⊢
    obtain ⟨hprimary, halternate⟩ := hexits
    simp [hprimary, halternate]

theorem Completes.wellFormed_block (done : a.Completes body) (sound : a.Sound)
    (hk : body.blocks[k]? = some block) : block.id = k ∧ block.WellFormed body.blocks.length := by
  obtain ⟨l, hsurvives, hblock⟩ := done.block_iff.mp hk
  have hl := List.mem_of_getElem? hsurvives
  have closed := done.closed sound hl
  obtain ⟨code, last, hcode, straight, hexits⟩ := closed.ends
  obtain ⟨is, his, hparts⟩ := finishBlock_eq_ok.mp hblock
  rw [hcode] at his
  obtain ⟨init, stop, hsplit, hinit, hstop⟩ := ends_of_finishBlock his straight
  have hends := done.ends sound hl hblock hstop hexits
  rw [done.length_blocks]
  subst hparts
  refine ⟨rfl, ⟨init, stop, hsplit, hinit, hends⟩, ?_, ?_, ?_⟩
  · intro s hs
    simp only [BasicBlock.successors, List.mem_append, Option.mem_toList, Option.bind_eq_some_iff,
      List.mem_map, mem_handlers] at hs
    obtain (⟨_, -, hs⟩ | ⟨_, -, hs⟩) | ⟨h, ⟨_, -, hs, -⟩, rfl⟩ := hs
    · exact number_lt hs
    · exact number_lt hs
    · exact number_lt hs
  · refine closed.apart.distinct.filterMap _ fun c d hne h hh h' hh' => ?_
    simp only [Option.map_eq_some_iff] at hh hh'
    obtain ⟨_, -, rfl⟩ := hh
    obtain ⟨_, -, rfl⟩ := hh'
    exact hne
  · intro h hh
    obtain ⟨c, hc, -, hexception⟩ := mem_handlers.mp hh
    exact hexception ▸ closed.apart.thrown c hc

/-- Whatever calls were made on a body, if it finishes, then as a well-formed graph. -/
theorem finish_wellFormed (id : BodyId) (method : MethodId) (isStatic : Bool)
    (history : List Operation) (body : MethodBody)
    (h : ((start id method isStatic).runAll history).finish.result = .ok body) :
    body.WellFormed := by
  obtain ⟨steps, done⟩ := finish_steps h
  have sound := steps.sound (start_sound id method isStatic)
  have traced := steps.traced (start_sound id method isStatic) (start_traced id method isStatic)
  refine ⟨?_, fun k block hk => (done.wellFormed_block sound hk).1, fun block hblock => ?_⟩
  · intro hempty
    have hentry := done.entry sound traced
    have hlost : body.blocks.length = 0 := by rw [hempty, List.length_nil]
    rw [done.length_blocks, List.length_eq_zero_iff] at hlost
    simp [hlost] at hentry
  · obtain ⟨k, hk⟩ := List.getElem?_of_mem hblock
    exact (done.wellFormed_block sound hk).2

end Assembler

/-! A loop that divides under a catch clause. The calls contain one that is refused and a jump with no
block open. -/
namespace Reduction

def id : BodyId := ⟨0⟩
def method : MethodId := ⟨.root, ⟨"reduce", by decide⟩, .int, [.int, .long]⟩

def divisor : Local := ⟨id, 1, .int⟩
def quotient : Local := ⟨id, 3, .int⟩
def handler : Label := ⟨id, 1⟩
def loop : Label := ⟨id, 2⟩

def calls : List Operation :=
  [.newLocal .int, .newLabel, .newLabel, .addCatch .throwable handler,
    .emit (.move quotient divisor), .mark loop,
    .emit (.binary .divide quotient quotient divisor), .emit .returnVoid,
    .branch .gt loop quotient none, .removeCatch .throwable, .emit (.returnValue quotient),
    .jump loop, .mark handler, .emit (.returnValue divisor)]

def v0 : Register := ⟨0, .int⟩
def v1 : Register := ⟨1, .root⟩
def v2 : Register := ⟨2, .int⟩
def v3 : Register := ⟨3, .long⟩

def finished : MethodBody where
  blocks :=
    [⟨0, [.moveParameter v1 0, .moveParameter v2 1, .moveParameter v3 2, .move v0 v2, .goto],
        some 2, none, []⟩,
      ⟨1, [.returnValue v2], none, none, []⟩,
      ⟨2, [.binary .divide v0 v0 v2], some 3, none, [⟨.throwable, 1⟩]⟩,
      ⟨3, [.branch .gt v0 none], some 4, some 2, []⟩,
      ⟨4, [.returnValue v0], none, none, []⟩]
  registers := 5
  parameterRegisters := 4

theorem calls_finish :
    ((Assembler.start id method false).runAll calls).finish.result = .ok finished := by
  decide

theorem finished_wellFormed :
    ((Assembler.start id method false).runAll calls).finish.result = .ok finished ∧
      finished.WellFormed :=
  ⟨calls_finish, Assembler.finish_wellFormed id method false calls finished calls_finish⟩

end Reduction
end Dalvik
