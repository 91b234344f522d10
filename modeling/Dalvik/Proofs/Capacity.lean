import Dalvik.Proofs.Outcomes

/-! How much a frame holds. Registers are assigned exactly if the variables fit, and then every number that
is stored is the total of widths that it stands for. If they do not fit, the first total that is too large
is reported and the body stays as it was. -/
namespace Dalvik

theorem Primitive.width_le (p : Primitive) : p.width ≤ 2 := by
  cases p <;> decide

theorem Ty.width_le (t : Ty) : t.width ≤ 2 := by
  cases t with
  | void => exact Nat.zero_le 2
  | value type =>
    cases type with
    | primitive p => exact p.width_le
    | reference r => exact Nat.le_succ 1

theorem Ty.totalWidth_take_succ_le (types : List Ty) (k : Nat) :
    Ty.totalWidth (types.take (k + 1)) ≤ Ty.totalWidth (types.take k) + 2 := by
  induction types generalizing k with
  | nil => simp [Ty.totalWidth]
  | cons t types ih =>
    cases k with
    | zero => simpa [Ty.totalWidth] using t.width_le
    | succ k =>
      have := ih k
      simp only [Ty.totalWidth, List.take_succ_cons, List.foldr_cons] at this ⊢
      omega

/-- No width is more than two, so the first total that is too large is hardly so. -/
theorem Overflows.eq_or_eq {types : List Ty} {n : Nat} (h : Overflows 0 types n) :
    n = 65536 ∨ n = 65537 := by
  obtain ⟨k, hn, hover, hbefore⟩ := h
  cases k with
  | zero =>
    rw [hn] at hover
    simp [Ty.totalWidth] at hover
  | succ k =>
    have hlast := hbefore k (Nat.lt_succ_self k)
    have hwidth := Ty.totalWidth_take_succ_le types k
    omega

theorem Overflows.le_totalWidth {types : List Ty} {n : Nat} (h : Overflows 0 types n) :
    n ≤ Ty.totalWidth types := by
  obtain ⟨k, hn, -⟩ := h
  have happend := Ty.totalWidth_append (types.take k) (types.drop k)
  rw [List.take_append_drop] at happend
  omega

namespace Assembler

variable {a : Assembler} {frame : Frame} {moves : Array (Instruction Local)}

/-- The numbers that a frame stores, none of them cut off: the total widths of what comes before, for the
registers among all variables and for the moves among the arguments, and of everything, for the sizes. -/
structure Measured (a : Assembler) (locals : List Local) (types : List Ty) (frame : Frame) : Prop where
  assigned : a.frame = some frame
  types : a.parameters.toList.map Local.type = types
  count : frame.numbers.size = locals.length + a.parameters.size
  register : ∀ k x, (locals ++ a.parameters.toList)[k]? = some x → ∃ number : UInt16,
    frame.numbers[x.index]? = some number ∧ a.register x = .ok ⟨number, x.type⟩ ∧
    number.toNat = totalWidth ((locals ++ a.parameters.toList).take k) ∧
    number.toNat + x.width ≤ frame.size.toNat
  move : ∀ k x, a.parameters[k]? = some x → ∃ index,
    (a.block ⟨a.body, 0⟩).instructions[k]? = some (.moveParameter x index) ∧
    index.toNat = totalWidth (a.parameters.toList.take k)
  size : frame.size.toNat = totalWidth (locals ++ a.parameters.toList)
  parameterSize : frame.parameterSize.toNat = totalWidth a.parameters.toList
  limit : frame.size.toNat ≤ 65535

section Furnished

variable {k : Nat} {x : Local} (laid : a.Laid frame moves)
include laid

theorem Numbered.register_furnish (numbered : a.Numbered) (hk : a.frameOrder[k]? = some x) :
    ∃ number : UInt16, frame.numbers[x.index]? = some number ∧
      (a.furnish frame moves).register x = .ok ⟨number, x.type⟩ ∧
      number.toNat = totalWidth (a.frameOrder.take k) ∧
      number.toNat + x.width ≤ frame.size.toNat := by
  obtain ⟨number, hnumber, htotal⟩ := numbered.number_of_laid laid hk
  refine ⟨number, hnumber, ?_, htotal, ?_⟩
  · have hbody : x.body = (a.furnish frame moves).body := numbered.body (List.mem_of_getElem? hk)
    have hframe : (a.furnish frame moves).frame = some frame := rfl
    simp [Assembler.register, hbody, hframe, hnumber]
  · rw [htotal, laid.toNat_size]
    exact totalWidth_take_add_le hk

theorem Sound.move_furnish (sound : a.Sound) (hk : a.parameters.toList[k]? = some x) :
    ∃ index : UInt16,
      ((a.furnish frame moves).block ⟨a.body, 0⟩).instructions[k]? = some (.moveParameter x index) ∧
      index.toNat = totalWidth (a.parameters.toList.take k) := by
  have hmove := Placement.getElem?_argumentMoves hk 0
  have hcode := (furnish_edited frame moves).block_self sound.entry_owned
  have hlength : k < (Placement.argumentMoves 0 a.parameters.toList).length := by
    rw [Placement.length_argumentMoves]
    exact (List.getElem?_eq_some_iff.mp hk).1
  rw [Nat.zero_add] at hmove
  refine ⟨_, ?_, laid.toNat_ofNat (Nat.le_of_add_right_le (totalWidth_take_add_le hk))⟩
  rw [hcode, ← Array.getElem?_toList, DraftBlock.toList_after, laid.moves,
    List.getElem?_append_left hlength, hmove]

theorem Numbered.measured (numbered : a.Numbered) (sound : a.Sound) :
    (a.furnish frame moves).Measured a.locals.toList (argumentTypes a.method a.isStatic) frame where
  assigned := rfl
  types := numbered.types
  count := by
    have hcount : frame.numbers.size = a.nextLocal := by
      simpa using Placement.size_of_places laid.places
    rw [hcount, numbered.next, Array.length_toList, Nat.add_comm]
    rfl
  register := fun _ _ hk => numbered.register_furnish laid hk
  move := fun _ _ hk => sound.move_furnish laid (Array.getElem?_toList.trans hk)
  size := laid.toNat_size
  parameterSize := laid.toNat_parameterSize
  limit := Nat.le_of_lt_succ frame.size.toNat_lt

end Furnished

/-- Whatever calls were made on a body without registers, they are assigned exactly if all widths come to
65535 at most; otherwise the first total above that is reported, and nothing is changed. -/
theorem assignRegisters_iff_fits (id : BodyId) (method : MethodId) (isStatic : Bool)
    (history : List Operation)
    (unassigned : ((start id method isStatic).runAll history).frame = none) :
    let a := (start id method isStatic).runAll history
    let locals := (start id method isStatic).created history
    let types := locals.map Local.type ++ argumentTypes method isStatic
    (a.assignRegisters.result = .ok () ↔ Ty.totalWidth types ≤ 65535) ∧
      (Ty.totalWidth types ≤ 65535 →
        ∃ frame, a.assignRegisters.state.Measured locals (argumentTypes method isStatic) frame) ∧
      (65535 < Ty.totalWidth types → ∃ n, Overflows 0 types n ∧ (n = 65536 ∨ n = 65537) ∧
        a.assignRegisters = .fail a (.registerOverflow n)) := by
  intro a locals types
  have steps : Steps _ _ a := runAll_steps history
  have sound : a.Sound := steps.sound (start_sound id method isStatic)
  have numbered : a.Numbered := steps.numbered (start_numbered id method isStatic)
  have same := steps.sameMethod
  have hlocals : a.locals.toList = locals := runAll_locals history
  have htypes : a.frameOrder.map Local.type = types := by
    rw [frameOrder, List.map_append, numbered.types, hlocals, same.method, same.isStatic]
    rfl
  have hwidth : totalWidth a.frameOrder = Ty.totalWidth types := congrArg Ty.totalWidth htypes
  have unassigned : a.frame = none := unassigned
  obtain ⟨hfits, frame, moves, layout⟩ | ⟨hover, n, hn, layout⟩ := a.layout_cases
  · have hassigned : a.assignRegisters.result = .ok () ∧
        a.assignRegisters.state = a.furnish frame moves := by
      rw [← sound.furnish_eq]
      simp only [assignRegisters, unassigned, layout]
      exact ⟨rfl, rfl⟩
    have measured := numbered.measured (laid_of_layout layout) sound
    rw [hlocals, same.method, same.isStatic] at measured
    rw [hwidth] at hfits
    refine ⟨iff_of_true hassigned.1 hfits, fun _ => ⟨frame, ?_⟩, fun h => by omega⟩
    rw [hassigned.2]
    exact measured
  · have hrefused : a.assignRegisters = .fail a (.registerOverflow n) := by
      simp only [assignRegisters, unassigned, layout]
      rfl
    rw [hwidth] at hover
    rw [htypes] at hn
    refine ⟨iff_of_false ?_ (by omega), fun h => by omega, fun _ => ⟨n, hn, hn.eq_or_eq, hrefused⟩⟩
    intro h
    rw [hrefused] at h
    cases h

theorem created_replicate (early : a.emitted = false) (unassigned : a.frame = none) {type : Ty}
    (value : type.isVoid = false) (n : Nat) :
    (a.created (List.replicate n (.newLocal type))).map Local.type = List.replicate n type ∧
      (a.runAll (List.replicate n (.newLocal type))).frame = none := by
  induction n generalizing a with
  | zero => exact ⟨rfl, unassigned⟩
  | succ n ih =>
    have hrun : a.newLocal type = .ok { a with
        locals := a.locals.push ⟨a.body, a.nextLocal, type⟩
        nextLocal := a.nextLocal + 1 } ⟨a.body, a.nextLocal, type⟩ := by
      simp [newLocal, early, unassigned, value]
    obtain ⟨hcreated, hframe⟩ := ih (a := (a.newLocal type).state) (by rw [hrun]; exact early)
      (by rw [hrun]; exact unassigned)
    refine ⟨?_, hframe⟩
    simp only [List.replicate_succ, created, run, Outcome.map, List.map_append]
    rw [hcreated, hrun]
    rfl

end Assembler

theorem Ty.totalWidth_replicate (n : Nat) (type : Ty) :
    Ty.totalWidth (List.replicate n type) = n * type.width := by
  induction n with
  | zero => simp [Ty.totalWidth]
  | succ n ih =>
    simp only [Ty.totalWidth, List.replicate_succ, List.foldr_cons] at ih ⊢
    rw [ih, Nat.succ_mul]
    omega

/-! Wide variables that leave one register for an argument. A narrow argument gets it, a wide one starts in
it and does not fit. -/
namespace Brimful

def id : BodyId := ⟨0⟩
def method (argument : Ty) : MethodId :=
  ⟨.root, ⟨"fill", by decide⟩, .void, [argument]⟩
def calls : List Operation := List.replicate 32767 (.newLocal .long)

def body (argument : Ty) : Assembler := (Assembler.start id (method argument) true).runAll calls

def types (argument : Ty) : List Ty :=
  ((Assembler.start id (method argument) true).created calls).map Local.type ++ [argument]

theorem body_frame (argument : Ty) : (body argument).frame = none :=
  (Assembler.created_replicate rfl rfl rfl 32767).2

theorem totalWidth_types (argument : Ty) : Ty.totalWidth (types argument) = 65534 + argument.width := by
  rw [types, calls, (Assembler.created_replicate rfl rfl rfl 32767).1, Ty.totalWidth_append,
    Ty.totalWidth_replicate]
  have hlong : Ty.long.width = 2 := rfl
  simp [Ty.totalWidth, hlong]

/-- The narrow argument fills the frame to its last register, the wide one is refused at 65536. -/
theorem narrow_fits_wide_overflows :
    (body .int).assignRegisters.result = .ok () ∧
      (body .long).assignRegisters = .fail (body .long) (.registerOverflow 65536) := by
  have hnarrow := Assembler.assignRegisters_iff_fits id (method .int) true calls (body_frame .int)
  have hwide := Assembler.assignRegisters_iff_fits id (method .long) true calls (body_frame .long)
  refine ⟨hnarrow.1.mpr (Nat.le_of_eq (totalWidth_types .int)), ?_⟩
  have hover : 65535 < Ty.totalWidth (types .long) := by
    rw [totalWidth_types]
    decide
  obtain ⟨n, hn, hfirst, hrefused⟩ := hwide.2.2 hover
  have hle := hn.le_totalWidth.trans_eq (totalWidth_types .long)
  have hlong : Ty.long.width = 2 := rfl
  obtain rfl : n = 65536 := by omega
  exact hrefused

end Brimful
end Dalvik
