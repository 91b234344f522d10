import Dalvik.Proofs.Deferral
import Dalvik.Proofs.Equivariance
import Dalvik.Proofs.Renumbering
import Dalvik.Proofs.Residue

/-! Bodies with spare labels. The labels of a body are spread over those of another one that has the same
code, and the labels between them are blank. Every call does the same with both. -/
namespace Dalvik

/-- `ys` lists the images of `xs` in their order, and between them labels that are no images. -/
inductive Woven (τ : Label → Label) : List Label → List Label → Prop
  | nil : Woven τ [] []
  | keep {xs ys : List Label} (l : Label) (rest : Woven τ xs ys) : Woven τ (xs ++ [l]) (ys ++ [τ l])
  | spare {xs ys : List Label} (m : Label) (unused : ∀ l, τ l ≠ m) (rest : Woven τ xs ys) :
      Woven τ xs (ys ++ [m])

namespace Woven

variable {τ τ' : Label → Label} {xs ys : List Label}

theorem filter (woven : Woven τ xs ys) {p q : Label → Bool} (hkept : ∀ l ∈ xs, q (τ l) = p l)
    (hspare : ∀ m ∈ ys, (∀ l, τ l ≠ m) → q m = false) : ys.filter q = (xs.filter p).map τ := by
  induction woven with
  | nil => rfl
  | keep l rest ih =>
    have hrest := ih (fun l hl => hkept l (List.mem_append_left _ hl))
      fun m hm => hspare m (List.mem_append_left _ hm)
    have hl : q (τ l) = p l := hkept l (by simp)
    rw [List.filter_append, List.filter_append, List.map_append, hrest]
    cases hp : p l <;> simp [hl, hp]
  | spare m unused rest ih =>
    have hrest := ih hkept fun m hm => hspare m (List.mem_append_left _ hm)
    rw [List.filter_append, hrest]
    simp [hspare m (by simp) unused]

theorem congr (woven : Woven τ xs ys) (hkept : ∀ l ∈ xs, τ' l = τ l)
    (hspare : ∀ m ∈ ys, (∀ l, τ l ≠ m) → ∀ l, τ' l ≠ m) : Woven τ' xs ys := by
  induction woven with
  | nil => exact .nil
  | keep l rest ih =>
    rw [← hkept l (by simp)]
    exact .keep l (ih (fun l hl => hkept l (List.mem_append_left _ hl))
      fun m hm => hspare m (List.mem_append_left _ hm))
  | spare m unused rest ih =>
    exact .spare m (hspare m (by simp) unused)
      (ih hkept fun m hm => hspare m (List.mem_append_left _ hm))

end Woven

namespace Assembler

/-- `b` is the body `a` under other numbers, with blank labels of its own. -/
structure Spread (τ : Label → Label) (a b : Assembler) : Prop where
  injective : τ.Injective
  entry : τ ⟨a.body, 0⟩ = ⟨a.body, 0⟩
  fresh : ∀ n, τ ⟨a.body, a.blocks.size + n⟩ = ⟨a.body, b.blocks.size + n⟩
  owned : ∀ l, b.ownsLabel (τ l) = a.ownsLabel l
  block : ∀ l, a.ownsLabel l = true → b.block (τ l) = (a.block l).renumber τ
  spare : ∀ m, b.ownsLabel m = true → (∀ l, τ l ≠ m) → (b.block m).isEmpty = true
  order : Woven τ a.order.toList b.order.toList
  current : b.current = a.current.map τ
  opened : ∀ l, a.current = some l → a.ownsLabel l = true
  catches : b.catches = a.catches.map (CatchClause.renumber τ)
  body : b.body = a.body
  method : b.method = a.method
  isStatic : b.isStatic = a.isStatic
  receiver : b.receiver = a.receiver
  parameters : b.parameters = a.parameters
  locals : b.locals = a.locals
  nextLocal : b.nextLocal = a.nextLocal
  emitted : b.emitted = a.emitted
  frame : b.frame = a.frame

end Assembler

structure Outcome.Spread (τ : Label → Label) (f : α → α) (first second : Outcome Assembler α) :
    Prop where
  result : second.result = renumbered τ f first.result
  state : first.state.Spread τ second.state

namespace Outcome.Spread

variable {τ : Label → Label} {f : α → α} {first second : Outcome Assembler α} {a b : Assembler}

theorem of_ok (h : a.Spread τ b) {x y : α} (hvalue : y = f x) : Spread τ f (.ok a x) (.ok b y) :=
  ⟨congrArg Except.ok hvalue, h⟩

theorem of_fail (h : a.Spread τ b) (e : Error) : Spread τ f (.fail a e) (.fail b (e.renumber τ)) :=
  ⟨rfl, h⟩

theorem of_unlabelled (h : a.Spread τ b) {x : Except Error α} (hx : Unlabelled τ x) {g : α → β}
    {k : β → β} (agree : ∀ value, k (g value) = g value) :
    Spread τ k (.ofExcept a (x.map g)) (.ofExcept b (x.map g)) := by
  refine ⟨?_, h⟩
  cases x with
  | error e => exact congrArg Except.error (hx e rfl).symm
  | ok value => exact congrArg Except.ok (agree value).symm

theorem note (h : Spread τ f first second) (event event' : Event) :
    Spread τ f (first.note event) (second.note event') :=
  ⟨h.result, h.state⟩

theorem map (h : Spread τ f first second) {g : α → β} {k : β → β} (agree : ∀ x, g (f x) = k (g x)) :
    Spread τ k (first.map g) (second.map g) := by
  refine ⟨?_, h.state⟩
  simp only [Outcome.map, h.result]
  cases first.result with
  | error e => rfl
  | ok x => exact congrArg Except.ok (agree x)

theorem andThen (h : Spread τ f first second) {next next' : Assembler → α → Outcome Assembler β}
    {g : β → β} (hnext : ∀ x, Spread τ g (next first.state x) (next' second.state (f x))) :
    Spread τ g (first.andThen next) (second.andThen next') := by
  obtain ⟨result, state, events⟩ := first
  obtain ⟨result', state', events'⟩ := second
  obtain rfl : result' = renumbered τ f result := h.result
  cases result with
  | error e => exact ⟨rfl, h.state⟩
  | ok x => exact ⟨(hnext x).result, (hnext x).state⟩

end Outcome.Spread

theorem Assembler.ownsLabel_push {a : Assembler} {l m : Label} {i : Instruction Local} :
    (a.push l i).ownsLabel m = a.ownsLabel m := by
  simp [ownsLabel, push, editBlock]

theorem Assembler.ownsLabel_adopting {a : Assembler} {l m : Label} :
    (a.adopting l).ownsLabel m = a.ownsLabel m := by
  simp [ownsLabel, adopting, editBlock]

namespace Assembler.Spread

variable {τ : Label → Label} {a b : Assembler} {l : Label}

section Updates

variable (h : a.Spread τ b)
include h

theorem edit {f g : DraftBlock → DraftBlock} (hl : a.ownsLabel l = true)
    (agree : ∀ d, g (d.renumber τ) = (f d).renumber τ) :
    (a.editBlock l f).Spread τ (b.editBlock (τ l) g) :=
  have hl' : b.ownsLabel (τ l) = true := (h.owned l).trans hl
  { h with
    fresh := by simpa [editBlock] using h.fresh
    owned := fun m => by rw [ownsLabel_editBlock, ownsLabel_editBlock, h.owned m]
    block := fun m hm => by
      rw [ownsLabel_editBlock] at hm
      by_cases hml : m = l
      · subst hml
        rw [block_editBlock_self hl, block_editBlock_self hl', h.block m hl, agree]
      · rw [block_editBlock_of_ne hl hm hml,
          block_editBlock_of_ne hl' ((h.owned m).trans hm) (h.injective.ne hml), h.block m hm]
    spare := fun m hm unused => by
      rw [ownsLabel_editBlock] at hm
      rw [block_editBlock_of_ne hl' hm (unused l).symm]
      exact h.spare m hm unused
    opened := fun m hm => ownsLabel_editBlock.trans (h.opened m hm) }

theorem freshLabel : τ a.freshLabel = b.freshLabel := by
  have hfresh := h.fresh 0
  rw [Nat.add_zero, Nat.add_zero] at hfresh
  rw [Assembler.freshLabel, hfresh, Assembler.freshLabel, h.body]

theorem grow (d : DraftBlock) : (a.grow d).Spread τ (b.grow (d.renumber τ)) :=
  { h with
    fresh := fun n => by
      have hfresh := h.fresh (n + 1)
      simp only [Assembler.grow, Array.size_push]
      rwa [Nat.add_assoc, Nat.add_comm 1, Nat.add_assoc, Nat.add_comm 1]
    owned := fun m => by
      rw [Bool.eq_iff_iff, ownsLabel_grow, ownsLabel_grow, h.owned m, ← h.freshLabel,
        h.injective.eq_iff]
    block := fun m hm => by
      obtain hm | rfl := ownsLabel_grow.mp hm
      · rw [block_grow_of_owned hm, block_grow_of_owned ((h.owned m).trans hm), h.block m hm]
      · rw [h.freshLabel, block_grow_fresh, block_grow_fresh]
    spare := fun m hm unused => by
      obtain hm | rfl := ownsLabel_grow.mp hm
      · rw [block_grow_of_owned hm]
        exact h.spare m hm unused
      · exact absurd h.freshLabel (unused _)
    opened := fun m hm => ownsLabel_grow.mpr (.inl (h.opened m hm)) }

theorem enlist (l : Label) :
    Spread τ { a with order := a.order.push l } { b with order := b.order.push (τ l) } :=
  { h with
    order := by
      rw [Array.toList_push, Array.toList_push]
      exact .keep l h.order }

theorem setCurrent {c : Option Label} (hc : ∀ l, c = some l → a.ownsLabel l = true) :
    Spread τ { a with current := c } { b with current := c.map τ } :=
  { h with current := rfl, opened := hc }

theorem setCatches (clauses : List CatchClause) :
    Spread τ { a with catches := clauses }
      { b with catches := clauses.map (CatchClause.renumber τ) } :=
  { h with catches := rfl }

theorem close {f g : DraftBlock → DraftBlock} (hl : a.ownsLabel l = true)
    (agree : ∀ d, g (d.renumber τ) = (f d).renumber τ) :
    (a.close l f).Spread τ (b.close (τ l) g) := by
  apply (h.edit hl agree).setCurrent (c := none)
  intro m hm
  cases hm

theorem push (hl : a.ownsLabel l = true) (i : Instruction Local) :
    (a.push l i).Spread τ (b.push (τ l) i) :=
  { h.edit (f := fun d => { d with instructions := d.instructions.push i }) hl fun _ => rfl with
    emitted := rfl }

theorem split (hl : a.ownsLabel l = true) (alternate : Option Label) (handlers : List CatchClause) :
    (a.split l alternate handlers).Spread τ
      (b.split (τ l) (alternate.map τ) (handlers.map (CatchClause.renumber τ))) := by
  have edited := h.edit (f := ({ · with primary := some a.freshLabel, alternate, handlers }))
    (g := ({ · with
      primary := some b.freshLabel
      alternate := alternate.map τ
      handlers := handlers.map (CatchClause.renumber τ) })) hl
    fun d => by simp [DraftBlock.renumber, h.freshLabel]
  have grown := (edited.grow { adopted := true, marked := true }).enlist a.freshLabel
  have opened := grown.setCurrent (c := some a.freshLabel) fun m hm => by
    obtain rfl := Option.some.inj hm
    exact ownsLabel_grow.mpr (.inr freshLabel_editBlock.symm)
  rw [Option.map_some, h.freshLabel] at opened
  exact opened

end Updates

section Flow

variable (h : a.Spread τ b)
include h

theorem adopting (hl : a.ownsLabel l = true) : (a.adopting l).Spread τ (b.adopting (τ l)) := by
  have edited := h.edit (f := ({ · with adopted := true })) (g := ({ · with adopted := true })) hl
    fun _ => rfl
  exact edited.enlist l

theorem adopt (l : Label) :
    (a.adopt l = .error (.foreignLabel l) ∧ b.adopt (τ l) = .error (.foreignLabel (τ l))) ∨
      ∃ a' b', a.adopt l = .ok a' ∧ b.adopt (τ l) = .ok b' ∧ a'.Spread τ b' ∧
        a'.ownsLabel l = true := by
  unfold Assembler.adopt
  rw [h.owned]
  cases hl : a.ownsLabel l with
  | false => exact .inl ⟨rfl, rfl⟩
  | true =>
    have hadopted : (b.block (τ l)).adopted = (a.block l).adopted := by
      rw [h.block l hl]
      rfl
    right
    rw [hadopted]
    cases (a.block l).adopted with
    | true => exact ⟨a, b, rfl, rfl, h, hl⟩
    | false =>
      exact ⟨a.adopting l, b.adopting (τ l), rfl, rfl, h.adopting hl, ownsLabel_adopting.trans hl⟩

theorem route (hl : a.ownsLabel l = true) (i : Instruction Local) (target : Option Label) :
    Outcome.Spread τ id (a.route l i target) (b.route (τ l) i (target.map τ)) := by
  have hcatches : b.catches.isEmpty = a.catches.isEmpty := by
    rw [h.catches, List.isEmpty_map]
  simp only [Assembler.route, hcatches]
  cases i.flow with
  | next =>
    by_cases hguarded : (i.canThrow && !a.catches.isEmpty) = true
    · simp only [hguarded, if_true]
      apply Outcome.Spread.note
      rw [h.catches]
      exact .of_ok (h.split hl none a.catches) rfl
    · simp only [hguarded]
      exact .of_ok h rfl
  | goto =>
    refine .of_ok (h.close hl ?_) rfl
    exact fun _ => rfl
  | branch =>
    apply Outcome.Spread.note
    exact .of_ok (h.split hl target []) rfl
  | leave =>
    refine .of_ok (h.close hl ?_) rfl
    exact fun _ => rfl
  | raise =>
    rw [h.catches]
    refine .of_ok (h.close hl ?_) rfl
    exact fun _ => rfl

theorem append (i : Instruction Local) (target : Option Label) :
    Outcome.Spread τ id (a.append i target) (b.append i (target.map τ)) := by
  have howns : b.owns = a.owns := by
    funext x
    rw [owns, owns, h.body]
  unfold Assembler.append
  rw [h.current, howns]
  cases hcurrent : a.current with
  | none => exact .of_fail h _
  | some l =>
    have hl := h.opened l hcurrent
    simp only [Option.map_some]
    cases i.operands.find? fun x => !a.owns x with
    | some x => exact .of_fail h _
    | none =>
      apply Outcome.Spread.note
      exact (h.push hl i).route (ownsLabel_push.trans hl) i target

omit h in
theorem appendAll (h : a.Spread τ b) (is : List (Instruction Local)) :
    Outcome.Spread τ id (a.appendAll is) (b.appendAll is) := by
  induction is generalizing a b with
  | nil => exact .of_ok h rfl
  | cons i is ih =>
    have first := h.append i none
    exact first.andThen fun _ => ih first.state

theorem appendTo (target : Label) (i : Instruction Local) :
    Outcome.Spread τ id (a.appendTo target i) (b.appendTo (τ target) i) := by
  unfold Assembler.appendTo
  obtain ⟨ha, hb⟩ | ⟨a', b', ha, hb, h', -⟩ := h.adopt target
  · rw [ha, hb]
    exact .of_fail h _
  · rw [ha, hb]
    exact h'.append i (some target)

theorem entered (hl : a.ownsLabel l = true) : (a.entered l).Spread τ (b.entered (τ l)) := by
  have edited := h.edit (f := ({ · with marked := true })) (g := ({ · with marked := true })) hl
    fun _ => rfl
  apply edited.setCurrent (c := some l)
  intro m hm
  obtain rfl := Option.some.inj hm
  exact ownsLabel_editBlock.trans hl

theorem jumped {c : Label} (hc : a.ownsLabel c = true) (l : Label) :
    (a.jumped c l).Spread τ (b.jumped (τ c) (τ l)) := by
  have hc' : (a.push c .goto).ownsLabel c = true := ownsLabel_push.trans hc
  exact (h.push hc .goto).close (f := ({ · with primary := some l }))
    (g := ({ · with primary := some (τ l) })) hc' fun _ => rfl

theorem mark (l : Label) : Outcome.Spread τ id (a.mark l) (b.mark (τ l)) := by
  obtain ⟨ha, hb⟩ | ⟨a', b', ha, hb, h', hl⟩ := h.adopt l
  · unfold Assembler.mark
    rw [ha, hb]
    exact .of_fail h _
  · have hmarked : (b'.block (τ l)).marked = (a'.block l).marked := by
      rw [h'.block l hl]
      rfl
    cases marked : (a'.block l).marked with
    | true =>
      rw [mark_of_marked ha marked, mark_of_marked hb (hmarked.trans marked)]
      exact .of_fail h' _
    | false =>
      have hcurrent := h'.current
      cases current : a'.current with
      | none =>
        rw [current] at hcurrent
        rw [mark_of_closed ha marked current, mark_of_closed hb (hmarked.trans marked) hcurrent]
        exact .of_ok (h'.entered hl) rfl
      | some c =>
        rw [current] at hcurrent
        rw [mark_of_open ha marked current, mark_of_open hb (hmarked.trans marked) hcurrent]
        have jumped := h'.jumped (h'.opened c current) l
        exact ⟨rfl, jumped.entered ((jumped_edited a' c l).ownsLabel.trans hl)⟩

theorem addCatch (exception : Ty) (handler : Label) :
    Outcome.Spread τ id (a.addCatch exception handler) (b.addCatch exception (τ handler)) := by
  have hcaught : b.catches.any (·.exception == exception) =
      a.catches.any (·.exception == exception) := by
    rw [h.catches, List.any_map]
    rfl
  unfold Assembler.addCatch
  rw [hcaught]
  split
  · exact .of_fail h _
  · split
    · exact .of_fail h _
    · obtain ⟨ha, hb⟩ | ⟨a', b', ha, hb, h', -⟩ := h.adopt handler
      · rw [ha, hb]
        exact .of_fail h _
      · rw [ha, hb]
        have protected' := h'.setCatches (⟨exception, handler⟩ :: a'.catches)
        rw [List.map_cons, ← h'.catches] at protected'
        exact .of_ok protected' rfl

theorem removeCatch (exception : Ty) :
    Outcome.Spread τ τ (a.removeCatch exception) (b.removeCatch exception) := by
  have hfind : b.catches.find? (·.exception == exception) =
      (a.catches.find? (·.exception == exception)).map (CatchClause.renumber τ) := by
    rw [h.catches, List.find?_map]
    rfl
  have herase : b.catches.eraseP (·.exception == exception) =
      (a.catches.eraseP (·.exception == exception)).map (CatchClause.renumber τ) := by
    rw [h.catches, List.eraseP_map]
    rfl
  unfold Assembler.removeCatch
  rw [hfind, herase]
  cases a.catches.find? (·.exception == exception) with
  | none => exact .of_fail h _
  | some clause => exact .of_ok (h.setCatches _) rfl

theorem emit (statement : Statement) :
    Outcome.Spread τ id (a.emit statement) (b.emit statement) := by
  have hchecked := Statement.unlabelled_instructions (τ := τ) a.method statement
  unfold Assembler.emit
  rw [h.method]
  cases hinstructions : statement.instructions a.method with
  | error e => exact ⟨congrArg Except.error (hchecked e hinstructions).symm, h⟩
  | ok is => exact h.appendAll is

theorem branch (comparison : Comparison) (target : Label) (x : Local) (y : Option Local) :
    Outcome.Spread τ id (a.branch comparison target x y) (b.branch comparison (τ target) x y) := by
  have happended := h.appendTo target (.branch comparison x y)
  have hoperand := Typing.unlabelled_branchOperand (τ := τ) comparison x.type
  cases y with
  | none =>
    simp only [Assembler.branch]
    cases hchecked : Typing.branchOperand comparison x.type with
    | error e => exact ⟨congrArg Except.error (hoperand e hchecked).symm, h⟩
    | ok => exact happended
  | some y =>
    have hsame : Unlabelled τ (Typing.same .comparison x.type y.type) :=
      Typing.unlabelled_require rfl
    have hboth : Unlabelled τ
        (Typing.same .comparison x.type y.type >>= fun _ => Typing.branchOperand comparison x.type) :=
      hsame.bind fun _ => hoperand
    simp only [Assembler.branch]
    cases hchecked : (Typing.same .comparison x.type y.type >>= fun _ =>
        Typing.branchOperand comparison x.type) with
    | error e => exact ⟨congrArg Except.error (hboth e hchecked).symm, h⟩
    | ok => exact happended

theorem newLocal (type : Ty) : Outcome.Spread τ id (a.newLocal type) (b.newLocal type) := by
  have hlate : (b.emitted || b.frame.isSome) = (a.emitted || a.frame.isSome) := by
    rw [h.emitted, h.frame]
  have hx : (⟨b.body, b.nextLocal, type⟩ : Local) = ⟨a.body, a.nextLocal, type⟩ := by
    rw [h.body, h.nextLocal]
  unfold Assembler.newLocal
  rw [hlate]
  split
  · exact .of_fail h _
  · split
    · exact .of_fail h _
    · refine .of_ok ?_ hx
      exact { h with
        locals := congrArg₂ Array.push h.locals hx
        nextLocal := congrArg (· + 1) h.nextLocal }

theorem newLabel : Outcome.Spread τ τ a.newLabel b.newLabel := by
  unfold Assembler.newLabel
  exact .of_ok (h.grow {}) h.freshLabel.symm

end Flow

section Frame

variable (h : a.Spread τ b)
include h

theorem register (x : Local) : b.register x = a.register x := register_congr h.body h.frame x

theorem askParameter (index : Nat) (type : Ty) : b.askParameter index type = a.askParameter index type := by
  simp only [Assembler.askParameter, h.method, h.isStatic, h.parameters]

theorem askReceiver (type : Ty) : b.askReceiver type = a.askReceiver type := by
  simp only [Assembler.askReceiver, h.method, h.receiver]

theorem furnish (hl : a.ownsLabel ⟨a.body, 0⟩ = true) (frame : Frame)
    (moves : Array (Instruction Local)) : (a.furnish frame moves).Spread τ (b.furnish frame moves) := by
  have edited := h.edit (f := DraftBlock.after moves) (g := DraftBlock.after moves) hl fun _ => rfl
  rw [h.entry] at edited
  have hentry : b.furnish frame moves =
      { b.editBlock ⟨a.body, 0⟩ (DraftBlock.after moves) with frame := some frame } := by
    rw [Assembler.furnish, h.body]
  rw [hentry]
  exact { edited with frame := rfl }

theorem assignRegisters (sound : a.Sound) (sound' : b.Sound) :
    Outcome.Spread τ id a.assignRegisters b.assignRegisters := by
  have hlayout : b.layout = a.layout :=
    layout_congr ⟨h.locals, h.nextLocal, h.frame⟩ h.parameters
  unfold Assembler.assignRegisters
  rw [h.frame, hlayout]
  split
  · exact .of_fail h _
  · obtain ⟨-, frame, moves, layout⟩ | ⟨-, n, -, layout⟩ := a.layout_cases
    · rw [layout]
      apply Outcome.Spread.note
      have furnished := h.furnish sound.entry_owned frame moves
      rw [← sound.furnish_eq, ← sound'.furnish_eq] at furnished
      exact .of_ok furnished rfl
    · rw [layout]
      exact .of_fail h _

end Frame

section Finish

variable (h : a.Spread τ b) (sound : a.Sound)
include h sound

omit sound in
theorem isEmpty_block (hl : a.ownsLabel l = true) : (b.block (τ l)).isEmpty = (a.block l).isEmpty := by
  rw [h.block l hl]
  rfl

omit sound in
theorem pending : b.pending = a.pending.map τ := by
  unfold Assembler.pending
  rw [h.current]
  cases hcurrent : a.current with
  | none => rfl
  | some l =>
    simp only [Option.map_some, Option.filter_some, h.isEmpty_block (h.opened l hcurrent)]
    split <;> rfl

theorem surviving (sound' : b.Sound) : b.surviving = a.surviving.map τ := by
  apply h.order.filter
  · intro l hl
    rw [h.isEmpty_block ((sound.mem_order l).mp hl).1]
  · intro m hm unused
    rw [h.spare m ((sound'.mem_order m).mp hm).1 unused]
    rfl

theorem unplaced (sound' : b.Sound) : b.unplaced = a.unplaced.map τ := by
  have howned {l : Label} (hl : l ∈ a.surviving) : a.ownsLabel l = true :=
    ((mem_surviving sound).mp hl).1.1
  have hsuccessors : (b.surviving.flatMap fun l => (b.block l).successors) =
      (a.surviving.flatMap fun l => (a.block l).successors).map τ := by
    rw [h.surviving sound sound', List.flatMap_map, List.map_flatMap]
    apply List.flatMap_congr
    intro l hl
    rw [h.block l (howned hl), DraftBlock.successors_renumber]
  unfold Assembler.unplaced
  rw [hsuccessors, List.filter_map, ← eraseDups_map h.injective]
  congr 2
  apply List.filter_congr
  intro s hs
  obtain ⟨l, hl, hs⟩ := List.mem_flatMap.mp hs
  exact h.isEmpty_block (sound.edges l (howned hl) s hs).1

omit sound in
theorem finishBlock (hl : a.ownsLabel l = true) (labels : List Label) (n : Nat) :
    b.finishBlock (labels.map τ) n (τ l) = a.finishBlock labels n l := by
  have hregister : b.register = a.register := funext h.register
  simp only [Assembler.finishBlock, h.block l hl, hregister]
  simp only [DraftBlock.renumber, CatchClause.renumber, Option.bind_map, List.filterMap_map,
    Function.comp_def, idxOf?_map h.injective]

theorem finishBlocks (sound' : b.Sound) : b.finishBlocks = a.finishBlocks := by
  simp only [Assembler.finishBlocks, h.surviving sound sound', List.zipIdx_map, List.mapM_map]
  apply mapM_congr
  intro p hp
  have hl := List.mem_of_getElem? (List.mk_mem_zipIdx_iff_getElem?.mp hp)
  exact h.finishBlock ((mem_surviving sound).mp hl).1.1 a.surviving p.2

theorem complete (sound' : b.Sound) : Outcome.Spread τ id a.complete b.complete := by
  have hpending := h.pending
  have hunplaced := h.unplaced sound sound'
  have hended : (b.pending.isSome || !b.unplaced.isEmpty) =
      (a.pending.isSome || !a.unplaced.isEmpty) := by
    rw [hpending, hunplaced, Option.isSome_map, List.isEmpty_map]
  simp only [Assembler.complete, hended, h.frame, h.finishBlocks sound sound']
  split
  · rw [hpending, hunplaced]
    exact .of_fail h _
  · cases a.frame with
    | none => exact .of_fail h _
    | some frame =>
      cases hblocks : a.finishBlocks with
      | error e =>
        exact ⟨congrArg Except.error (unlabelled_finishBlocks a e hblocks).symm, h⟩
      | ok blocks => exact ⟨rfl, h⟩

theorem finish (sound' : b.Sound) : Outcome.Spread τ id a.finish b.finish := by
  have hempty : b.isEmpty = a.isEmpty := by rw [isEmpty, isEmpty, h.emitted]
  have hfirst : b.order[0]? = a.order[0]?.map τ := by
    rw [sound.entry, sound'.entry, h.body]
    exact congrArg some h.entry.symm
  have hensured : Outcome.Spread τ id a.ensureRegisters b.ensureRegisters := by
    unfold ensureRegisters
    rw [h.frame]
    split
    · exact .of_ok h rfl
    · exact h.assignRegisters sound sound'
  unfold Assembler.finish
  rw [hempty, hfirst]
  split
  · exact .of_fail h _
  · have steps := ensureRegisters_steps (a := a)
    have steps' := ensureRegisters_steps (a := b)
    exact hensured.andThen fun _ =>
      hensured.state.complete (steps.1.sound sound) (steps'.1.sound sound')

/-- A call does the same under other numbers, whatever labels are spare. -/
theorem run (sound' : b.Sound) (operation : Operation) :
    Outcome.Spread τ (Reply.renumber τ) (a.run operation) (b.run (operation.renumber τ)) := by
  cases operation with
  | newLabel => exact h.newLabel.map fun _ => rfl
  | newLocal type => exact (h.newLocal type).map fun _ => rfl
  | parameter index type =>
    simp only [Operation.renumber, Assembler.run, h.askParameter]
    exact .of_unlabelled h (unlabelled_askParameter a index type) fun _ => rfl
  | receiver type =>
    simp only [Operation.renumber, Assembler.run, h.askReceiver]
    exact .of_unlabelled h (unlabelled_askReceiver a type) fun _ => rfl
  | mark label => exact (h.mark label).map fun _ => rfl
  | jump label => exact (h.appendTo label .goto).map fun _ => rfl
  | branch comparison target x y => exact (h.branch comparison target x y).map fun _ => rfl
  | addCatch exception handler => exact (h.addCatch exception handler).map fun _ => rfl
  | removeCatch exception => exact (h.removeCatch exception).map fun _ => rfl
  | emit statement => exact (h.emit statement).map fun _ => rfl
  | assignRegisters => exact (h.assignRegisters sound sound').map fun _ => rfl
  | register x =>
    simp only [Operation.renumber, Assembler.run, h.register]
    exact .of_unlabelled h (unlabelled_register a x) fun _ => rfl
  | finish => exact (h.finish sound sound').map fun _ => rfl

end Finish

end Assembler.Spread
end Dalvik
