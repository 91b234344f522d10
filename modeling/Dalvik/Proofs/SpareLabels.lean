import Dalvik.Proofs.Spread
import Mathlib.Order.Monotone.Basic

/-! Labels that no code goes into cannot be told. A history may ask for more labels than it needs, and take
them into use as handlers of clauses that cover nothing: all other calls answer the same, but for the numbers
of labels, and the body is finished to the same. -/
namespace Dalvik

def Label.renumber (body : BodyId) (number : Nat → Nat) (l : Label) : Label :=
  if l.body = body then ⟨body, number l.index⟩ else l

def skip (n : Nat) (number : Nat → Nat) (i : Nat) : Nat := if i < n then number i else number i + 1

theorem skip_of_lt {n i : Nat} {number : Nat → Nat} (h : i < n) : skip n number i = number i := if_pos h

theorem skip_of_le {n i : Nat} {number : Nat → Nat} (h : n ≤ i) : skip n number i = number i + 1 :=
  if_neg (Nat.not_lt.mpr h)

theorem strictMono_skip {number : Nat → Nat} (increasing : StrictMono number) (n : Nat) :
    StrictMono (skip n number) := by
  intro i j hij
  have hlt := increasing hij
  unfold skip
  split <;> split <;> omega

namespace Label

variable {body : BodyId} {number : Nat → Nat} {l : Label}

theorem renumber_of_own (h : l.body = body) : l.renumber body number = ⟨body, number l.index⟩ := if_pos h

theorem renumber_of_foreign (h : l.body ≠ body) : l.renumber body number = l := if_neg h

theorem renumber_mk (i : Nat) : renumber body number ⟨body, i⟩ = ⟨body, number i⟩ := if_pos rfl

theorem body_renumber : (l.renumber body number).body = l.body := by
  unfold renumber
  split
  · exact Eq.symm ‹_›
  · rfl

theorem renumber_injective (injective : number.Injective) : (renumber body number).Injective := by
  intro l m h
  have hbody : l.body = m.body := by
    rw [← body_renumber (l := l), h, body_renumber]
  by_cases hl : l.body = body
  · rw [renumber_of_own hl, renumber_of_own (hbody.symm.trans hl), mk.injEq] at h
    obtain ⟨-, hindex⟩ := h
    obtain ⟨_, _⟩ := l
    obtain ⟨_, _⟩ := m
    rw [mk.injEq]
    exact ⟨hbody, injective hindex⟩
  · rw [renumber_of_foreign hl, renumber_of_foreign fun hm => hl (hbody.trans hm)] at h
    exact h

theorem renumber_ne {k : Nat} (unused : ∀ i, number i ≠ k) (l : Label) :
    l.renumber body number ≠ ⟨body, k⟩ := by
  intro h
  have hbody : l.body = body := by
    rw [← body_renumber, h]
  rw [renumber_of_own hbody, mk.injEq] at h
  exact unused l.index h.2

end Label

namespace Assembler

variable {τ τ' : Label → Label} {a b : Assembler} {m : Label}

namespace Spread

theorem label (h : a.Spread τ b) (sound : a.Sound) (sound' : b.Sound) (injective : τ'.Injective)
    (agree : ∀ l, a.ownsLabel l = true → τ' l = τ l)
    (fresh : ∀ n, τ' ⟨a.body, a.blocks.size + n⟩ = ⟨a.body, b.blocks.size + 1 + n⟩)
    (foreign : ∀ l, a.ownsLabel l = false → (b.grow {}).ownsLabel (τ' l) = false) :
    a.Spread τ' (b.grow {}) := by
  have owned (l : Label) : (b.grow {}).ownsLabel (τ' l) = a.ownsLabel l := by
    cases hl : a.ownsLabel l with
    | false => exact foreign l hl
    | true => rw [agree l hl, ownsLabel_grow]; exact .inl ((h.owned l).trans hl)
  have kept (l : Label) (hl : b.ownsLabel (τ' l) = true) : τ' l = τ l := by
    apply agree
    rw [← owned]
    exact ownsLabel_grow.mpr (.inl hl)
  exact
    { h with
      injective := injective
      entry := by rw [agree _ sound.entry_owned, h.entry]
      fresh := fun n => by
        rw [fresh]
        simp [Assembler.grow]
      owned := owned
      block := fun l hl => by
        rw [agree l hl, block_grow_of_owned ((h.owned l).trans hl), h.block l hl]
        exact (DraftBlock.renumber_congr fun s hs => agree s (sound.edges l hl s hs).1).symm
      spare := fun m hm unused => by
        obtain hm | rfl := ownsLabel_grow.mp hm
        · rw [block_grow_of_owned hm]
          apply h.spare m hm
          rintro l rfl
          exact unused l (agree l ((h.owned l).symm.trans hm))
        · rw [block_grow_fresh]
          rfl
      order := by
        apply h.order.congr
        · exact fun l hl => agree l ((sound.mem_order l).mp hl).1
        · rintro m hm unused l rfl
          exact unused l (kept l ((sound'.mem_order _).mp hm).1).symm
      current := by
        rw [show (b.grow {}).current = a.current.map τ from h.current]
        exact Option.map_congr fun l hl => (agree l (h.opened l hl)).symm
      catches := by
        rw [show (b.grow {}).catches = a.catches.map (CatchClause.renumber τ) from h.catches]
        apply List.map_congr_left
        intro c hc
        rw [CatchClause.renumber, CatchClause.renumber, agree _ (sound.catches c hc).1] }

theorem skip {body : BodyId} {number : Nat → Nat} (hbody : a.body = body)
    (h : a.Spread (Label.renumber body number) b) (increasing : StrictMono number) (sound : a.Sound)
    (sound' : b.Sound) : a.Spread (Label.renumber body (skip a.blocks.size number)) (b.grow {}) := by
  subst hbody
  have later (n : Nat) : number (a.blocks.size + n) = b.blocks.size + n := by
    have hfresh := h.fresh n
    rw [Label.renumber_mk] at hfresh
    exact congrArg Label.index hfresh
  apply h.label sound sound'
  · exact Label.renumber_injective (strictMono_skip increasing _).injective
  · intro l hl
    obtain ⟨hbody, hindex⟩ := ownsLabel_iff.mp hl
    rw [Label.renumber_of_own hbody, Label.renumber_of_own hbody, skip_of_lt hindex]
  · intro n
    rw [Label.renumber_mk, skip_of_le (Nat.le_add_right _ _), later, Nat.add_right_comm]
  · intro l hl
    rw [← Bool.not_eq_true, ownsLabel_iff] at hl ⊢
    rintro ⟨hbody, hindex⟩
    have hown : l.body = a.body := by
      rw [← Label.body_renumber, hbody]
      exact h.body
    have hle : a.blocks.size ≤ l.index := by
      by_contra hlt
      exact hl ⟨hown, Nat.not_le.mp hlt⟩
    obtain ⟨n, hn⟩ := Nat.exists_eq_add_of_le hle
    rw [Label.renumber_of_own hown, hn, skip_of_le (Nat.le_add_right _ _), later] at hindex
    simp only [Assembler.grow, Array.size_push] at hindex
    omega

theorem adoptSpare (h : a.Spread τ b) (hm : b.ownsLabel m = true) (unused : ∀ l, τ l ≠ m) :
    a.Spread τ (b.adopting m) :=
  { h with
    fresh := by simpa [Assembler.adopting, editBlock] using h.fresh
    owned := fun l => ownsLabel_adopting.trans (h.owned l)
    block := fun l hl => by
      rw [← h.block l hl]
      exact block_editBlock_of_ne hm ((h.owned l).trans hl) (unused l)
    spare := fun m' hm' unused' => by
      rw [← h.spare m' (ownsLabel_adopting.symm.trans hm') unused']
      exact observe_editBlock DraftBlock.isEmpty fun _ => rfl
    order := by
      have horder : (b.adopting m).order = b.order.push m := rfl
      rw [horder, Array.toList_push]
      exact .spare m unused h.order }

end Spread

theorem addCatch_removeCatch {exception : Ty} (h : (b.addCatch exception m).result = .ok ()) :
    b.adopt m = .ok ((b.addCatch exception m).state.removeCatch exception).state := by
  unfold addCatch at h ⊢
  split at h
  · cases h
  · rename_i hreference
    split at h
    · cases h
    · rename_i hcaught
      rw [if_neg hreference, if_neg hcaught]
      cases hadopt : b.adopt m with
      | error e =>
        rw [hadopt] at h
        cases h
      | ok c => simp [removeCatch, Outcome.ok]

/-- The first history with spare labels in it makes the second. What the first calls its label `i` is label
`number i` in the second, and a label with none of these numbers is spare. -/
inductive Interspersed (id : BodyId) (method : MethodId) (isStatic : Bool) :
    List Operation → List Operation → (Nat → Nat) → Prop
  | nil : Interspersed id method isStatic [] [] fun i => i
  | call (operation : Operation) (before : Interspersed id method isStatic calls padded number) :
      Interspersed id method isStatic (calls ++ [operation])
        (padded ++ [operation.renumber (Label.renumber id number)]) number
  | label (before : Interspersed id method isStatic calls padded number) :
      Interspersed id method isStatic calls (padded ++ [.newLabel])
        (skip ((start id method isStatic).runAll calls).blocks.size number)
  | clause (exception : Ty) (k : Nat) (spare : ∀ i, number i ≠ k)
      (granted : (((start id method isStatic).runAll padded).addCatch exception ⟨id, k⟩).result = .ok ())
      (before : Interspersed id method isStatic calls padded number) :
      Interspersed id method isStatic calls
        (padded ++ [.addCatch exception ⟨id, k⟩, .removeCatch exception]) number

section Interspersed

variable {id : BodyId} {method : MethodId} {isStatic : Bool} {calls padded : List Operation}
  {number : Nat → Nat}

theorem runAll_append (a : Assembler) (history more : List Operation) :
    a.runAll (history ++ more) = (a.runAll history).runAll more := List.foldl_append

theorem runAll_concat (a : Assembler) (history : List Operation) (operation : Operation) :
    a.runAll (history ++ [operation]) = ((a.runAll history).run operation).state :=
  runAll_append a history [operation]

theorem start_spread : (start id method isStatic).Spread (Label.renumber id fun i => i)
    (start id method isStatic) := by
  have same (l : Label) : Label.renumber id (fun i => i) l = l := by
    unfold Label.renumber
    split
    · rename_i hbody
      rw [← hbody]
    · rfl
  exact
    { injective := Label.renumber_injective Function.injective_id
      entry := same _
      fresh := fun _ => same _
      owned := fun l => by rw [same]
      block := fun l hl => by
        obtain rfl := (ownsLabel_start id method isStatic).mp hl
        rw [same, block_start]
        rfl
      spare := fun m _ unused => absurd (same m) (unused m)
      order := by
        have first := Woven.keep ⟨id, 0⟩ (Woven.nil (τ := Label.renumber id fun i => i))
        rwa [same] at first
      current := congrArg some (same _).symm
      opened := fun l hl => ((start_sound id method isStatic).current l hl).1
      catches := rfl
      body := rfl
      method := rfl
      isStatic := rfl
      receiver := rfl
      parameters := rfl
      locals := rfl
      nextLocal := rfl
      emitted := rfl
      frame := rfl }

theorem reached_sound (id : BodyId) (method : MethodId) (isStatic : Bool) (history : List Operation) :
    ((start id method isStatic).runAll history).Sound :=
  (runAll_steps history).sound (start_sound id method isStatic)

theorem reached_body (id : BodyId) (method : MethodId) (isStatic : Bool) (history : List Operation) :
    ((start id method isStatic).runAll history).body = id :=
  (runAll_steps (a := start id method isStatic) history).sameMethod.body

/-- Whatever was inserted, the one body is spread over the other. -/
theorem Interspersed.spread (h : Interspersed id method isStatic calls padded number) :
    StrictMono number ∧ ((start id method isStatic).runAll calls).Spread (Label.renumber id number)
      ((start id method isStatic).runAll padded) := by
  induction h with
  | nil => exact ⟨strictMono_id, start_spread⟩
  | @call calls padded number operation before ih =>
    obtain ⟨increasing, spread⟩ := ih
    refine ⟨increasing, ?_⟩
    rw [runAll_concat, runAll_concat]
    exact (spread.run (reached_sound ..) (reached_sound ..) operation).state
  | @label calls padded number before ih =>
    obtain ⟨increasing, spread⟩ := ih
    refine ⟨strictMono_skip increasing _, ?_⟩
    rw [runAll_concat]
    exact spread.skip (reached_body ..) increasing (reached_sound ..) (reached_sound ..)
  | @clause calls padded number exception k spare granted before ih =>
    obtain ⟨increasing, spread⟩ := ih
    refine ⟨increasing, ?_⟩
    have hadopt := addCatch_removeCatch granted
    rw [runAll_append]
    -- an earlier clause may have brought the label into use
    obtain ⟨owned, ⟨-, hstate⟩ | ⟨-, hstate⟩⟩ := adopt_cases hadopt
    · rw [← hstate] at spread
      exact spread
    · have adopted := spread.adoptSpare owned (Label.renumber_ne spare)
      rw [adopting, ← hstate] at adopted
      exact adopted

theorem Grows.size_le {a b : Assembler} (grows : Grows a b) : a.blocks.size ≤ b.blocks.size := by
  by_contra hlt
  have owned := grows.owned ⟨a.body, b.blocks.size⟩ (ownsLabel_iff.mpr ⟨rfl, Nat.not_le.mp hlt⟩)
  exact Nat.lt_irrefl _ (ownsLabel_iff.mp owned).2

theorem size_le_runAll (id : BodyId) (method : MethodId) (isStatic : Bool)
    (history more : List Operation) : ((start id method isStatic).runAll history).blocks.size ≤
      ((start id method isStatic).runAll (history ++ more)).blocks.size := by
  rw [runAll_append]
  exact ((runAll_steps more).grows (reached_sound ..)).size_le

/-- Each call of the first history has its place in the second, after what was inserted before it. The
numbers of the labels that are given out by then stay. -/
theorem Interspersed.split (h : Interspersed id method isStatic calls padded number)
    {earlier later : List Operation} {operation : Operation}
    (hcalls : calls = earlier ++ operation :: later) :
    ∃ earlier' number' later',
      padded = earlier' ++ operation.renumber (Label.renumber id number') :: later' ∧
        Interspersed id method isStatic earlier earlier' number' ∧
        ∀ i < ((start id method isStatic).runAll (earlier ++ [operation])).blocks.size,
          number i = number' i := by
  induction h generalizing later with
  | nil => simp at hcalls
  | @call calls padded number last before ih =>
    -- the call is the last one, or was made before it
    obtain rfl | ⟨later, x, rfl⟩ := List.eq_nil_or_concat later
    · obtain ⟨rfl, hlast⟩ := List.append_inj' hcalls rfl
      obtain rfl := List.singleton_inj.mp hlast
      exact ⟨padded, number, [], rfl, before, fun _ _ => rfl⟩
    · rw [List.concat_eq_append, ← List.cons_append, ← List.append_assoc] at hcalls
      obtain ⟨hcalls, -⟩ := List.append_inj' hcalls rfl
      obtain ⟨earlier', number', later', rfl, hbefore, agree⟩ := ih hcalls
      exact ⟨earlier', number', _, List.append_assoc .., hbefore, agree⟩
  | @label calls padded number before ih =>
    obtain ⟨earlier', number', later', rfl, hbefore, agree⟩ := ih hcalls
    refine ⟨earlier', number', _, List.append_assoc .., hbefore, fun i hi => ?_⟩
    have hle := size_le_runAll id method isStatic (earlier ++ [operation]) later
    rw [List.append_assoc, List.singleton_append, ← hcalls] at hle
    rw [skip_of_lt (Nat.lt_of_lt_of_le hi hle), agree i hi]
  | clause exception k spare granted before ih =>
    obtain ⟨earlier', number', later', rfl, hbefore, agree⟩ := ih hcalls
    exact ⟨earlier', number', _, List.append_assoc .., hbefore, agree⟩

/-- Two bodies answer all calls alike and are finished to the same, but for the numbers of labels. -/
structure SameAnswers (τ : Label → Label) (a b : Assembler) : Prop where
  answers : ∀ operation, (b.run (operation.renumber τ)).result =
    renumbered τ (Reply.renumber τ) (a.run operation).result
  current : b.current = a.current.map τ
  isEmpty : b.isEmpty = a.isEmpty
  parameterWidth : b.parameterWidth = a.parameterWidth
  finish : b.finish.result = renumbered τ (fun body => body) a.finish.result
  surviving : b.finish.state.surviving = a.finish.state.surviving.map τ

theorem Spread.sameAnswers (h : a.Spread τ b) (sound : a.Sound) (sound' : b.Sound) :
    SameAnswers τ a b := by
  have finished := h.finish sound sound'
  have kept := run_leads (a := a) .finish
  have kept' := run_leads (a := b) .finish
  exact
    { answers := fun operation => (h.run sound sound' operation).result
      current := h.current
      isEmpty := by rw [Assembler.isEmpty, Assembler.isEmpty, h.emitted]
      parameterWidth := by rw [Assembler.parameterWidth, Assembler.parameterWidth, h.parameters]
      finish := finished.result
      surviving := finished.state.surviving (Steps.sound kept sound) (Steps.sound kept' sound') }

theorem Interspersed.sameAnswers (h : Interspersed id method isStatic calls padded number) :
    SameAnswers (Label.renumber id number) ((start id method isStatic).runAll calls)
      ((start id method isStatic).runAll padded) :=
  h.spread.2.sameAnswers (reached_sound ..) (reached_sound ..)

/-- It cannot be told that labels were asked for and got no code, not even if they were in use: the calls
around them answer as they did without them, and the body is finished to the same. The blocks are numbered
by the order of the labels that got code. -/
theorem interspersed_sameAnswers (h : Interspersed id method isStatic calls padded number) :
    StrictMono number ∧
      SameAnswers (Label.renumber id number) ((start id method isStatic).runAll calls)
        ((start id method isStatic).runAll padded) ∧
      ∀ earlier operation later, calls = earlier ++ operation :: later →
        ∃ earlier' number' later',
          padded = earlier' ++ operation.renumber (Label.renumber id number') :: later' ∧
            Interspersed id method isStatic earlier earlier' number' ∧
            SameAnswers (Label.renumber id number') ((start id method isStatic).runAll earlier)
              ((start id method isStatic).runAll earlier') ∧
            ∀ i < ((start id method isStatic).runAll (earlier ++ [operation])).blocks.size,
              number i = number' i := by
  refine ⟨h.spread.1, h.sameAnswers, fun earlier operation later hcalls => ?_⟩
  obtain ⟨earlier', number', later', hpadded, hbefore, agree⟩ := h.split hcalls
  exact ⟨earlier', number', later', hpadded, hbefore, hbefore.sameAnswers, agree⟩

theorem Interspersed.append (h : Interspersed id method isStatic calls padded number)
    (more : List Operation) : Interspersed id method isStatic (calls ++ more)
      (padded ++ more.map (Operation.renumber (Label.renumber id number))) number := by
  induction more generalizing calls padded with
  | nil => simpa using h
  | cons operation more ih => simpa using ih (h.call operation)

end Interspersed

end Assembler

namespace Reduction

/-- The calls of the loop, with three labels more. One of them is a handler for a moment. -/
def spaced : List Operation :=
  [.newLocal .int, .newLabel, .newLabel, .addCatch .throwable ⟨id, 2⟩, .removeCatch .throwable, .newLabel,
    .newLabel, .addCatch .throwable ⟨id, 1⟩, .emit (.move quotient divisor), .mark ⟨id, 3⟩,
    .emit (.binary .divide quotient quotient divisor), .emit .returnVoid,
    .branch .gt ⟨id, 3⟩ quotient none, .removeCatch .throwable, .newLabel,
    .emit (.returnValue quotient), .jump ⟨id, 3⟩, .mark ⟨id, 1⟩, .emit (.returnValue divisor)]

theorem calls_spaced : ∃ number, Assembler.Interspersed id method false calls spaced number := by
  have hsize : ((Assembler.start id method false).runAll (calls.take 2)).blocks.size = 2 := by decide
  have spare (i : Nat) : skip 2 (fun i => i) i ≠ 2 := by
    by_cases hi : i < 2
    · rw [skip_of_lt hi]
      omega
    · rw [skip_of_le (Nat.not_lt.mp hi)]
      omega
  have first := (@Assembler.Interspersed.nil id method false).append (calls.take 2)
  have second := (hsize ▸ first.label).clause .throwable 2 spare (by decide)
  have third := (second.append ((calls.drop 2).take 1)).label
  have fourth := (third.append ((calls.drop 3).take 7)).label
  exact ⟨_, fourth.append (calls.drop 10)⟩

theorem spaced_finished :
    (∃ number, Assembler.Interspersed id method false calls spaced number) ∧
      ((Assembler.start id method false).runAll spaced).finish.result = .ok finished := by
  obtain ⟨number, h⟩ := calls_spaced
  refine ⟨⟨number, h⟩, ?_⟩
  have same := (Assembler.interspersed_sameAnswers h).2.1
  rw [same.finish, calls_finish]
  rfl

end Reduction
end Dalvik
