import Dalvik.Assembler.Frame
import Dalvik.Proofs.Traversal

/-! What the layout of a frame computes: registers are running totals of widths, the plain variables
before the arguments, and each argument is moved from its offset among the arguments. -/
namespace Dalvik

@[simp] theorem registerNumber_eq_ok {n : Nat} {r : UInt16} :
    registerNumber n = .ok r ↔ n < 65536 ∧ UInt16.ofNat n = r := by
  unfold registerNumber
  split <;> simp [*]

theorem Ty.totalWidth_append (ts us : List Ty) :
    Ty.totalWidth (ts ++ us) = Ty.totalWidth ts + Ty.totalWidth us := by
  induction ts with
  | nil => simp [Ty.totalWidth]
  | cons t ts ih =>
    simp only [Ty.totalWidth, List.cons_append, List.foldr_cons] at ih ⊢
    omega

def totalWidth (xs : List Local) : Nat := Ty.totalWidth (xs.map Local.type)

@[simp] theorem totalWidth_nil : totalWidth [] = 0 := rfl

@[simp] theorem totalWidth_cons (x : Local) (xs : List Local) :
    totalWidth (x :: xs) = x.width + totalWidth xs := rfl

@[simp] theorem totalWidth_append (xs ys : List Local) :
    totalWidth (xs ++ ys) = totalWidth xs + totalWidth ys := by
  simp only [totalWidth, List.map_append, Ty.totalWidth_append]

theorem totalWidth_take_add_le {xs : List Local} {k : Nat} {x : Local} (h : xs[k]? = some x) :
    totalWidth (xs.take k) + x.width ≤ totalWidth xs := by
  induction xs generalizing k with
  | nil => simp at h
  | cons y xs ih =>
    cases k with
    | zero =>
      obtain rfl : y = x := by simpa using h
      simp
    | succ k =>
      have := ih (k := k) (by simpa using h)
      simp only [List.take_succ_cons, totalWidth_cons]
      omega

namespace Placement

theorem place_eq_ok {p q : Placement} {x : Local} :
    p.place x = .ok q ↔ p.next < 65536 ∧
      q = ⟨p.numbers.setIfInBounds x.index (UInt16.ofNat p.next), p.next + x.width⟩ := by
  simp only [place, bind_eq_ok, registerNumber_eq_ok, pure_eq_ok]
  constructor
  · rintro ⟨_, ⟨hnext, rfl⟩, rfl⟩
    exact ⟨hnext, rfl⟩
  · rintro ⟨hnext, rfl⟩
    exact ⟨_, ⟨hnext, rfl⟩, rfl⟩

variable {p q : Placement} {xs : List Local}

theorem next_of_places (h : xs.foldlM place p = .ok q) : q.next = p.next + totalWidth xs := by
  induction xs generalizing p with
  | nil =>
    obtain rfl := pure_eq_ok.mp h
    rfl
  | cons x xs ih =>
    simp only [List.foldlM_cons, bind_eq_ok, place_eq_ok] at h
    obtain ⟨_, ⟨_, rfl⟩, hrest⟩ := h
    rw [ih hrest, totalWidth_cons, Nat.add_assoc]

theorem size_of_places (h : xs.foldlM place p = .ok q) : q.numbers.size = p.numbers.size := by
  induction xs generalizing p with
  | nil =>
    obtain rfl := pure_eq_ok.mp h
    rfl
  | cons x xs ih =>
    simp only [List.foldlM_cons, bind_eq_ok, place_eq_ok] at h
    obtain ⟨_, ⟨_, rfl⟩, hrest⟩ := h
    simpa using ih hrest

theorem numbers_of_places_of_notMem (h : xs.foldlM place p = .ok q) {j : Nat}
    (hj : j ∉ xs.map Local.index) : q.numbers[j]? = p.numbers[j]? := by
  induction xs generalizing p with
  | nil =>
    obtain rfl := pure_eq_ok.mp h
    rfl
  | cons x xs ih =>
    simp only [List.foldlM_cons, bind_eq_ok, place_eq_ok] at h
    obtain ⟨_, ⟨_, rfl⟩, hrest⟩ := h
    simp only [List.map_cons, List.mem_cons, not_or] at hj
    rw [ih hrest hj.2, Array.getElem?_setIfInBounds_ne (Ne.symm hj.1)]

theorem number_of_places (h : xs.foldlM place p = .ok q) (distinct : (xs.map Local.index).Nodup)
    {k : Nat} {x : Local} (hk : xs[k]? = some x) (bound : x.index < p.numbers.size) :
    p.next + totalWidth (xs.take k) < 65536 ∧
      q.numbers[x.index]? = some (UInt16.ofNat (p.next + totalWidth (xs.take k))) := by
  induction xs generalizing p k with
  | nil => simp at hk
  | cons y xs ih =>
    simp only [List.foldlM_cons, bind_eq_ok, place_eq_ok] at h
    obtain ⟨_, ⟨hnext, rfl⟩, hrest⟩ := h
    simp only [List.map_cons, List.nodup_cons] at distinct
    cases k with
    | zero =>
      obtain rfl : y = x := by simpa using hk
      refine ⟨by simpa using hnext, ?_⟩
      rw [numbers_of_places_of_notMem hrest distinct.1]
      simp [bound]
    | succ k =>
      have hbound : x.index < (p.numbers.setIfInBounds y.index (UInt16.ofNat p.next)).size := by
        simpa using bound
      obtain ⟨hlt, hnumber⟩ := ih hrest distinct.2 (by simpa using hk) hbound
      simp only [List.take_succ_cons, totalWidth_cons, ← Nat.add_assoc]
      exact ⟨hlt, hnumber⟩

def argumentMoves (offset : Nat) : List Local → List (Instruction Local)
  | [] => []
  | x :: xs => .moveParameter x (UInt16.ofNat offset) :: argumentMoves (offset + x.width) xs

/-- Placing arguments is placing variables, and notes the moves beside it. -/
theorem places_of_placeArguments {first : Nat} {moves : Array (Instruction Local)}
    {s : Placement × Array (Instruction Local)} (hfirst : first ≤ p.next)
    (h : xs.foldlM (placeArgument first) (p, moves) = .ok s) :
    xs.foldlM place p = .ok s.1 ∧
      s.2.toList = moves.toList ++ argumentMoves (p.next - first) xs := by
  induction xs generalizing p moves with
  | nil =>
    obtain rfl := pure_eq_ok.mp h
    simp [argumentMoves]
  | cons x xs ih =>
    simp only [List.foldlM_cons, placeArgument, bind_eq_ok, registerNumber_eq_ok, pure_eq_ok] at h
    obtain ⟨_, ⟨placed, hplaced, _, ⟨_, rfl⟩, rfl⟩, hrest⟩ := h
    obtain ⟨hnext, rfl⟩ := place_eq_ok.mp hplaced
    obtain ⟨hplaces, hmoves⟩ := ih (Nat.le_add_right_of_le hfirst) hrest
    refine ⟨?_, ?_⟩
    · rw [List.foldlM_cons, hplaced]
      exact hplaces
    · rw [hmoves, Array.toList_push, argumentMoves, List.append_assoc, List.singleton_append,
        Nat.sub_add_comm hfirst]

theorem exists_of_mem_argumentMoves {offset : Nat} {i : Instruction Local}
    (h : i ∈ argumentMoves offset xs) : ∃ x ∈ xs, ∃ n, i = .moveParameter x n := by
  induction xs generalizing offset with
  | nil => simp [argumentMoves] at h
  | cons x xs ih =>
    obtain rfl | h := List.mem_cons.mp h
    · exact ⟨x, List.mem_cons_self, _, rfl⟩
    · obtain ⟨y, hy, n, rfl⟩ := ih h
      exact ⟨y, List.mem_cons_of_mem x hy, n, rfl⟩

theorem getElem?_argumentMoves {k : Nat} {x : Local} (hk : xs[k]? = some x) (offset : Nat) :
    (argumentMoves offset xs)[k]? =
      some (.moveParameter x (UInt16.ofNat (offset + totalWidth (xs.take k)))) := by
  induction xs generalizing offset k with
  | nil => simp at hk
  | cons y xs ih =>
    cases k with
    | zero =>
      obtain rfl : y = x := by simpa using hk
      rfl
    | succ k => simpa [argumentMoves, Nat.add_assoc] using ih (by simpa using hk) (offset + y.width)

theorem length_argumentMoves (offset : Nat) (xs : List Local) :
    (argumentMoves offset xs).length = xs.length := by
  induction xs generalizing offset with
  | nil => rfl
  | cons x xs ih => simp [argumentMoves, ih]

theorem isMoveParameter_of_mem {offset : Nat} {i : Instruction Local}
    (h : i ∈ argumentMoves offset xs) : i.isMoveParameter = true := by
  obtain ⟨x, -, n, rfl⟩ := exists_of_mem_argumentMoves h
  rfl

end Placement

namespace Assembler

def frameOrder (a : Assembler) : List Local := a.locals.toList ++ a.parameters.toList

/-- What is known of a frame and the moves that fill it. -/
structure Laid (a : Assembler) (frame : Frame) (moves : Array (Instruction Local)) : Prop where
  places : a.frameOrder.foldlM Placement.place ⟨Array.replicate a.nextLocal 0, 0⟩ =
    .ok ⟨frame.numbers, totalWidth a.frameOrder⟩
  fits : totalWidth a.frameOrder < 65536
  size : frame.size = UInt16.ofNat (totalWidth a.frameOrder)
  parameterSize : frame.parameterSize = UInt16.ofNat (totalWidth a.parameters.toList)
  moves : moves.toList = Placement.argumentMoves 0 a.parameters.toList

section Laid

variable {a : Assembler} {frame : Frame} {moves : Array (Instruction Local)} (laid : a.Laid frame moves)
include laid

theorem Laid.toNat_size : frame.size.toNat = totalWidth a.frameOrder := by
  rw [laid.size, UInt16.toNat_ofNat_of_lt' laid.fits]

theorem Laid.toNat_ofNat {n : Nat} (h : n ≤ totalWidth a.parameters.toList) :
    (UInt16.ofNat n).toNat = n := by
  have hfits := laid.fits
  rw [frameOrder, totalWidth_append] at hfits
  have hlt : n < 65536 := by omega
  exact UInt16.toNat_ofNat_of_lt' hlt

theorem Laid.toNat_parameterSize : frame.parameterSize.toNat = totalWidth a.parameters.toList := by
  rw [laid.parameterSize, laid.toNat_ofNat (Nat.le_refl _)]

end Laid

theorem laid_of_layout {a : Assembler} {frame : Frame} {moves : Array (Instruction Local)}
    (h : a.layout = .ok (frame, moves)) : a.Laid frame moves := by
  simp only [layout, ← Array.foldlM_toList, bind_eq_ok, registerNumber_eq_ok, pure_eq_ok] at h
  obtain ⟨p, hlocals, ⟨q, _⟩, hparameters, _, ⟨hfits, rfl⟩, _, ⟨_, rfl⟩, heq⟩ := h
  simp only [Prod.mk.injEq] at heq
  obtain ⟨rfl, rfl⟩ := heq
  obtain ⟨hplaces, hmoves⟩ := Placement.places_of_placeArguments (Nat.le_refl _) hparameters
  have hp : p.next = totalWidth a.locals.toList := by
    simpa using Placement.next_of_places hlocals
  have hq : q.next = totalWidth a.frameOrder := by
    rw [frameOrder, totalWidth_append, ← hp]
    exact Placement.next_of_places hplaces
  have hvariables : a.frameOrder.foldlM Placement.place ⟨Array.replicate a.nextLocal 0, 0⟩ = .ok q := by
    rw [frameOrder, List.foldlM_append, hlocals]
    exact hplaces
  refine
    { places := ?_
      fits := hq ▸ hfits
      size := by rw [hq]
      parameterSize := ?_
      moves := ?_ }
  · rw [← hq]
    exact hvariables
  · rw [hq, hp, frameOrder, totalWidth_append, Nat.add_sub_cancel_left]
  · simpa using hmoves

end Assembler
end Dalvik
