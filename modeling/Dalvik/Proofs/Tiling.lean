import Dalvik.Member.Resolve
import Dalvik.Proofs.Variables
import Mathlib.Data.Set.Lattice
import Mathlib.Order.CompletePartialOrder
import Mathlib.Order.Interval.Set.LinearOrder

/-! Registers tile the frame: the variables lie side by side from register zero to the end, those that
were created before the arguments, and nothing that happens to the body later moves them. -/
namespace Dalvik

namespace MethodId

inductive Resolved (m : MethodId) : Prop
  | method (owner returns : Ty) (name : String) (parameters : List Ty)
      (h : MethodId.of owner returns name parameters = .ok m)
  | initializer (owner : Ty) (parameters : List Ty) (h : MethodId.initializer owner parameters = .ok m)
  | classInitializer (owner : Ty) (h : MethodId.classInitializer owner = .ok m)

theorem checkSignature_eq_ok {owner : Ty} {parameters : List Ty}
    (h : checkSignature owner parameters = .ok ()) : owner.isReference = true := by
  unfold checkSignature at h
  by_contra howner
  rw [Bool.not_eq_true] at howner
  simp [howner, bind, Except.bind, throw, throwThe, MonadExceptOf.throw] at h

theorem Resolved.owner {m : MethodId} (h : m.Resolved) : m.owner.isReference = true := by
  cases h with
  | method owner returns name parameters h =>
    simp only [MethodId.of, bind_eq_ok, pure_eq_ok] at h
    obtain ⟨_, hsignature, _, -, rfl⟩ := h
    exact checkSignature_eq_ok hsignature
  | initializer owner parameters h =>
    simp only [MethodId.initializer, bind_eq_ok, pure_eq_ok] at h
    obtain ⟨_, hsignature, rfl⟩ := h
    exact checkSignature_eq_ok hsignature
  | classInitializer owner h =>
    simp only [MethodId.classInitializer, bind_eq_ok, pure_eq_ok] at h
    obtain ⟨_, hsignature, rfl⟩ := h
    exact checkSignature_eq_ok hsignature

end MethodId

theorem Ty.width_of_isReference {t : Ty} (h : t.isReference = true) : t.width = 1 := by
  cases t with
  | void => cases h
  | value type =>
    cases type with
    | primitive p => cases h
    | reference r => rfl

namespace Assembler

variable {a b : Assembler} {x : Local} {xs ys : List Local} {lo hi k : Nat}

def slots (a : Assembler) (x : Local) : Set Nat :=
  {n | ∃ r, a.register x = .ok r ∧ r.number.toNat ≤ n ∧ n < r.number.toNat + x.width}

def Tiles (a : Assembler) : Nat → List Local → Nat → Prop
  | lo, [], hi => lo = hi
  | lo, x :: xs, hi => (∃ r, a.register x = .ok r ∧ r.number.toNat = lo) ∧
      a.Tiles (lo + x.width) xs hi

theorem Tiles.bound (h : a.Tiles lo xs hi) : hi = lo + totalWidth xs := by
  induction xs generalizing lo with
  | nil => exact h.symm
  | cons x xs ih => rw [ih h.2, totalWidth_cons, Nat.add_assoc]

theorem tiles_append : a.Tiles lo (xs ++ ys) hi ↔
    a.Tiles lo xs (lo + totalWidth xs) ∧ a.Tiles (lo + totalWidth xs) ys hi := by
  induction xs generalizing lo with
  | nil => simp [Tiles]
  | cons x xs ih => simp [Tiles, ih, and_assoc, Nat.add_assoc]

theorem Tiles.register (h : a.Tiles lo xs hi) (hk : xs[k]? = some x) :
    ∃ r, a.register x = .ok r ∧ r.number.toNat = lo + totalWidth (xs.take k) := by
  induction xs generalizing lo k with
  | nil => simp at hk
  | cons y xs ih =>
    cases k with
    | zero =>
      obtain rfl : y = x := by simpa using hk
      simpa using h.1
    | succ k =>
      obtain ⟨r, hr, hnumber⟩ := ih h.2 (by simpa using hk)
      exact ⟨r, hr, by simp [hnumber, Nat.add_assoc]⟩

theorem slots_eq {r : Register} (hr : a.register x = .ok r) :
    a.slots x = Set.Ico r.number.toNat (r.number.toNat + x.width) := by
  ext n
  simp [slots, hr]

theorem Tiles.cover (h : a.Tiles lo xs hi) : ⋃ x ∈ xs, a.slots x = Set.Ico lo hi := by
  induction xs generalizing lo with
  | nil =>
    obtain rfl : lo = hi := h
    simp
  | cons x xs ih =>
    obtain ⟨⟨r, hr, rfl⟩, htiles⟩ := h
    have hbound := htiles.bound
    simp only [List.mem_cons, Set.iUnion_iUnion_eq_or_left, ih htiles, slots_eq hr]
    exact Set.Ico_union_Ico_eq_Ico (Nat.le_add_right ..) (by omega)

theorem Tiles.disjoint (h : a.Tiles lo xs hi) :
    xs.Pairwise fun x y => Disjoint (a.slots x) (a.slots y) := by
  induction xs generalizing lo with
  | nil => exact .nil
  | cons x xs ih =>
    obtain ⟨⟨r, hr, rfl⟩, htiles⟩ := h
    refine .cons (fun y hy => ?_) (ih htiles)
    have hafter : a.slots y ⊆ Set.Ico (r.number.toNat + x.width) hi := by
      rw [← htiles.cover]
      exact Set.subset_biUnion_of_mem (u := a.slots) hy
    rw [slots_eq hr]
    refine Set.disjoint_of_subset_right hafter ?_
    rw [Set.disjoint_left]
    intro n hn hn'
    exact absurd hn.2 (Nat.not_lt.mpr hn'.1)

theorem tiles_of_numbers (h : ∀ k x, xs[k]? = some x →
    ∃ r, a.register x = .ok r ∧ r.number.toNat = lo + totalWidth (xs.take k)) :
    a.Tiles lo xs (lo + totalWidth xs) := by
  induction xs generalizing lo with
  | nil => rfl
  | cons x xs ih =>
    rw [totalWidth_cons, ← Nat.add_assoc]
    refine ⟨by simpa using h 0 x rfl, ih fun k y hy => ?_⟩
    obtain ⟨r, hr, hnumber⟩ := h (k + 1) y (by simpa using hy)
    exact ⟨r, hr, by simp [hnumber, Nat.add_assoc]⟩

namespace Numbered

theorem frameOrder_indices (numbered : a.Numbered) : a.frameOrder.map Local.index =
    List.range' a.parameters.size a.locals.size ++ List.range a.parameters.size := by
  have harguments : a.parameters.toList.map Local.index = List.range a.parameters.size := by
    have hsize : a.parameters.size = (argumentTypes a.method a.isStatic).length := by
      rw [← numbered.types, List.length_map, Array.length_toList]
    rw [numbered.arguments, hsize]
    exact List.ext_getElem (by simp) (by simp)
  rw [frameOrder, List.map_append, numbered.indices, harguments]

theorem nodup_indices (numbered : a.Numbered) : (a.frameOrder.map Local.index).Nodup := by
  rw [numbered.frameOrder_indices, List.nodup_append]
  refine ⟨List.nodup_range', List.nodup_range, fun i hi j hj => ?_⟩
  simp only [List.mem_range'_1, List.mem_range] at hi hj
  omega

theorem index_lt (numbered : a.Numbered) (hx : x ∈ a.frameOrder) : x.index < a.nextLocal := by
  have hindex := List.mem_map_of_mem (f := Local.index) hx
  rw [numbered.frameOrder_indices, List.mem_append, List.mem_range'_1, List.mem_range] at hindex
  rw [numbered.next]
  omega

theorem body (numbered : a.Numbered) (hx : x ∈ a.frameOrder) : x.body = a.body := by
  obtain hx | hx := List.mem_append.mp hx
  · exact numbered.owned x hx
  · rw [numbered.arguments, List.mem_mapIdx] at hx
    obtain ⟨_, _, rfl⟩ := hx
    rfl

theorem number_of_laid (numbered : a.Numbered) {frame : Frame} {moves : Array (Instruction Local)}
    (laid : a.Laid frame moves) (hk : a.frameOrder[k]? = some x) :
    ∃ number, frame.numbers[x.index]? = some number ∧
      number.toNat = totalWidth (a.frameOrder.take k) := by
  obtain ⟨hlt, hnumber⟩ := Placement.number_of_places laid.places numbered.nodup_indices hk
    (by simpa using numbered.index_lt (List.mem_of_getElem? hk))
  rw [Nat.zero_add] at hlt hnumber
  exact ⟨_, hnumber, UInt16.toNat_ofNat_of_lt' hlt⟩

theorem tiles (numbered : a.Numbered) {frame : Frame} (hframe : a.frame = some frame) :
    a.Tiles 0 a.frameOrder frame.size.toNat := by
  obtain ⟨moves, laid⟩ := numbered.laid frame hframe
  rw [laid.toNat_size, ← Nat.zero_add (totalWidth _)]
  refine tiles_of_numbers fun k x hk => ?_
  obtain ⟨number, hnumber, htotal⟩ := numbered.number_of_laid laid hk
  refine ⟨⟨number, x.type⟩, ?_, by rw [htotal, Nat.zero_add]⟩
  simp [register, numbered.body (List.mem_of_getElem? hk), hframe, hnumber]

theorem totalWidth_take (numbered : a.Numbered) (k : Nat) :
    totalWidth (a.parameters.toList.take k) =
      Ty.totalWidth ((argumentTypes a.method a.isStatic).take k) := by
  rw [totalWidth, List.map_take, numbered.types]

theorem parameterWidth (numbered : a.Numbered) (howner : a.method.owner.isReference = true) :
    a.parameterWidth = a.method.parameterWidth (!a.isStatic) := by
  rw [Assembler.parameterWidth, numbered.types, argumentTypes, MethodId.parameterWidth]
  cases a.isStatic with
  | true => simp
  | false => simp [Ty.totalWidth, Ty.width_of_isReference howner]

end Numbered

/-- A frame that holds the variables that were created, then the receiver, then the parameters. -/
structure Tiled (a : Assembler) (method : MethodId) (isStatic : Bool) (locals : List Local)
    (frame : Frame) : Prop where
  tiles : a.Tiles 0 (locals ++ a.parameters.toList) frame.size.toNat
  disjoint : (locals ++ a.parameters.toList).Pairwise fun x y => Disjoint (a.slots x) (a.slots y)
  cover : ⋃ x ∈ locals ++ a.parameters.toList, a.slots x = Set.Ico 0 frame.size.toNat
  arguments : ⋃ x ∈ a.parameters.toList, a.slots x =
    Set.Ico (frame.size.toNat - frame.parameterSize.toNat) frame.size.toNat
  parameterSize : frame.parameterSize.toNat = a.parameterWidth
  parameterWidth : a.parameterWidth = method.parameterWidth (!isStatic)
  count : a.parameters.size = (if isStatic then 0 else 1) + method.parameters.length
  receiver : isStatic = false → ∃ x r, a.parameters[0]? = some x ∧
    a.askReceiver method.owner = .ok x ∧ a.register x = .ok r ∧
      r.number.toNat = frame.size.toNat - frame.parameterSize.toNat
  parameter : ∀ i type, method.parameters[i]? = some type →
    ∃ x r, a.parameters[i + if isStatic then 0 else 1]? = some x ∧
      a.askParameter i type = .ok x ∧ a.register x = .ok r ∧
        r.number.toNat = frame.size.toNat - frame.parameterSize.toNat +
          (if isStatic then 0 else 1) + Ty.totalWidth (method.parameters.take i)

theorem Numbered.getElem?_parameters (numbered : a.Numbered) (k : Nat) :
    a.parameters[k]? = (argumentTypes a.method a.isStatic)[k]?.map fun type => ⟨a.body, k, type⟩ := by
  rw [← Array.getElem?_toList, numbered.arguments, List.getElem?_mapIdx]

theorem getElem?_argumentTypes (method : MethodId) (isStatic : Bool) (i : Nat) :
    (argumentTypes method isStatic)[i + if isStatic then 0 else 1]? = method.parameters[i]? := by
  cases isStatic <;> simp [argumentTypes]

theorem take_argumentTypes {method : MethodId} (isStatic : Bool)
    (howner : method.owner.isReference = true) (i : Nat) :
    Ty.totalWidth ((argumentTypes method isStatic).take (i + if isStatic then 0 else 1)) =
      (if isStatic then 0 else 1) + Ty.totalWidth (method.parameters.take i) := by
  cases isStatic with
  | true => simp [argumentTypes]
  | false => simp [argumentTypes, Ty.totalWidth, Ty.width_of_isReference howner]

/-- The arguments take the end of the frame. -/
theorem Numbered.argumentsTile (numbered : a.Numbered) {frame : Frame} (hframe : a.frame = some frame) :
    frame.parameterSize.toNat = totalWidth a.parameters.toList ∧
      frame.parameterSize ≤ frame.size ∧
      a.Tiles (frame.size.toNat - frame.parameterSize.toNat) a.parameters.toList frame.size.toNat := by
  have tiles := numbered.tiles hframe
  obtain ⟨moves, laid⟩ := numbered.laid frame hframe
  have hsize := tiles.bound
  rw [frameOrder, totalWidth_append] at hsize
  have hparameterSize := laid.toNat_parameterSize
  obtain ⟨-, arguments⟩ := tiles_append.mp tiles
  rw [show 0 + totalWidth a.locals.toList = frame.size.toNat - frame.parameterSize.toNat by omega]
    at arguments
  exact ⟨hparameterSize, UInt16.le_iff_toNat_le.mpr (by omega), arguments⟩

theorem Numbered.askReceiver_eq (numbered : a.Numbered) (h : a.isStatic = false) :
    ∃ x, a.parameters[0]? = some x ∧ a.askReceiver a.method.owner = .ok x ∧
      x.type = a.method.owner := by
  have hx : a.parameters[0]? = some ⟨a.body, 0, a.method.owner⟩ := by
    simp [numbered.getElem?_parameters, argumentTypes, h]
  exact ⟨_, hx, by simp [askReceiver, numbered.receiver, h, hx, asked], rfl⟩

theorem Numbered.askParameter_eq (numbered : a.Numbered) {i : Nat} {type : Ty}
    (h : a.method.parameters[i]? = some type) :
    ∃ x, a.parameters[i + if a.isStatic then 0 else 1]? = some x ∧
      a.askParameter i type = .ok x ∧ x.type = type := by
  have hx : a.parameters[i + if a.isStatic then 0 else 1]? =
      some ⟨a.body, i + if a.isStatic then 0 else 1, type⟩ := by
    rw [numbered.getElem?_parameters, getElem?_argumentTypes, h]
    rfl
  exact ⟨_, hx, by simp [askParameter, (List.getElem?_eq_some_iff.mp h).1, hx, asked], rfl⟩

theorem Numbered.tiled (numbered : a.Numbered) {frame : Frame} (hframe : a.frame = some frame)
    (howner : a.method.owner.isReference = true) :
    a.Tiled a.method a.isStatic a.locals.toList frame := by
  have tiles := numbered.tiles hframe
  obtain ⟨hparameterSize, -, arguments⟩ := numbered.argumentsTile hframe
  have hregister {k : Nat} {x : Local} (hx : a.parameters[k]? = some x) :
      ∃ r, a.register x = .ok r ∧ r.number.toNat = frame.size.toNat - frame.parameterSize.toNat +
        Ty.totalWidth ((argumentTypes a.method a.isStatic).take k) := by
    rw [← numbered.totalWidth_take]
    exact arguments.register (by rw [Array.getElem?_toList, hx])
  refine
    { tiles := tiles
      disjoint := tiles.disjoint
      cover := tiles.cover
      arguments := arguments.cover
      parameterSize := hparameterSize
      parameterWidth := numbered.parameterWidth howner
      count := ?_
      receiver := fun hstatic => ?_
      parameter := fun i type htype => ?_ }
  · rw [← Array.length_toList, ← List.length_map (f := Local.type), numbered.types]
    cases a.isStatic <;> simp [argumentTypes, Nat.add_comm]
  · obtain ⟨x, hx, hasked, -⟩ := numbered.askReceiver_eq hstatic
    obtain ⟨r, hr, hnumber⟩ := hregister hx
    exact ⟨x, r, hx, hasked, hr, by simpa [Ty.totalWidth] using hnumber⟩
  · obtain ⟨x, hx, hasked, -⟩ := numbered.askParameter_eq htype
    obtain ⟨r, hr, hnumber⟩ := hregister hx
    rw [take_argumentTypes a.isStatic howner, ← Nat.add_assoc] at hnumber
    exact ⟨x, r, hx, hasked, hr, hnumber⟩

theorem assignRegisters_ok (h : a.assignRegisters.result = .ok ()) :
    ∃ frame, a.assignRegisters.state.frame = some frame := by
  obtain ⟨e, hfail⟩ | ⟨frame, moves, -, -, hassigned⟩ := a.assignRegisters_cases
  · rw [hfail] at h
    cases h
  · exact ⟨frame, by rw [hassigned]⟩

theorem register_congr (hbody : b.body = a.body) (hframe : b.frame = a.frame) (x : Local) :
    b.register x = a.register x := by
  rw [register, register, hbody, hframe]

/-- Once registers are assigned, they tile the frame, and do so whatever is called later. -/
theorem assignRegisters_tiled (id : BodyId) (method : MethodId) (isStatic : Bool)
    (resolved : method.Resolved) (before : List Operation)
    (h : ((start id method isStatic).runAll before).assignRegisters.result = .ok ()) :
    ∃ frame, ∀ later : List Operation,
      let a := ((start id method isStatic).runAll before).assignRegisters.state
      (a.runAll later).frame = some frame ∧
        (a.runAll later).Tiled method isStatic ((start id method isStatic).created before) frame ∧
          ∀ x, (a.runAll later).register x = a.register x := by
  obtain ⟨frame, hframe⟩ := assignRegisters_ok h
  refine ⟨frame, fun later => ?_⟩
  intro a
  have steps := (runAll_steps (a := start id method isStatic) before).trans assignRegisters_leads
  have rest := runAll_steps (a := a) later
  have same := (steps.trans rest).sameMethod
  have numbered := (steps.trans rest).numbered (start_numbered id method isStatic)
  obtain ⟨hlater, hkept⟩ := rest.assigned hframe
  have hlocals : (a.runAll later).locals.toList = (start id method isStatic).created before := by
    rw [hkept, assignRegisters_locals, runAll_locals]
    rfl
  have howner : (a.runAll later).method.owner.isReference = true := by
    rw [same.method]
    exact resolved.owner
  have tiled := numbered.tiled hlater howner
  rw [same.method, same.isStatic, hlocals] at tiled
  exact ⟨hlater, tiled, register_congr rest.sameMethod.body (hlater.trans hframe.symm)⟩

end Assembler

/-! Wide and narrow variables of an initializer. -/
namespace Mixed

def id : BodyId := ⟨0⟩
def method : MethodId := ⟨.root, .initializer, .void, [.long, .int]⟩
def calls : List Operation := [.newLocal .int, .newLocal .long, .newLocal .void, .newLocal .int]

theorem assigned_tiled :
    ((Assembler.start id method false).runAll calls).assignRegisters.result = .ok () ∧
      ∃ frame, ∀ later : List Operation,
        let a := ((Assembler.start id method false).runAll calls).assignRegisters.state
        (a.runAll later).frame = some frame ∧
          (a.runAll later).Tiled method false ((Assembler.start id method false).created calls) frame ∧
            ∀ x, (a.runAll later).register x = a.register x :=
  have h : ((Assembler.start id method false).runAll calls).assignRegisters.result = .ok () := by
    decide
  ⟨h, Assembler.assignRegisters_tiled id method false
    (.initializer .root [.long, .int] (by decide)) calls h⟩

end Mixed
end Dalvik
