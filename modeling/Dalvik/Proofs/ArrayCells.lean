import Dalvik.Proofs.Interning
import Dalvik.Proofs.TypeRules

/-! Arrays and their cells. A pool makes array types by structure, while the checks on array accesses
know the cells only by what is left of the descriptor without its first bracket; both have the same
notion of what the cells of an array are. -/
namespace Dalvik

theorem ValueType.array_injective : Function.Injective ValueType.array := by
  intro v w h
  have hchars : '[' :: v.chars = '[' :: w.chars := by rw [← v.chars_array, ← w.chars_array, h]
  exact ValueType.read_inverts.injective (List.cons.inj hchars).2

theorem Ty.elementDescriptor?_array (v : ValueType) :
    (Ty.value v.array).elementDescriptor? = some (Ty.value v).descriptor := by
  rw [elementDescriptor?, elementChars?_array]
  rfl

theorem Ty.exists_value {t : Ty} (h : t ≠ .void) : ∃ v, t = .value v := by
  cases t with
  | void => exact absurd rfl h
  | value v => exact ⟨v, rfl⟩

theorem Ty.hasCells_array {v : ValueType} {t : Ty} :
    (Ty.value v.array).HasCells t ↔ (Ty.value v).Compatible t := by
  constructor
  · rintro ⟨w, harray, hfits⟩
    rwa [ValueType.array_injective (Ty.value.inj harray)]
  · exact fun hfits => ⟨v, rfl, hfits⟩

namespace TypePool

variable {pool : TypePool} {t a h k : TypeHandle} {v : ValueType}

def nest (pool : TypePool) (cell : TypeHandle) : Nat → Outcome TypePool TypeHandle
  | 0 => .ok pool cell
  | dimensions + 1 =>
    (pool.nest cell dimensions).andThen fun pool array => pool.arrayOf array

section Entries

variable (canonical : pool.Canonical)
include canonical

theorem Canonical.eq_of_type (has : pool.Has h) (has' : pool.Has k) (htype : h.type = k.type) :
    h = k := by
  have hdescriptor := (canonical.descriptor_eq_iff_type has has').mpr htype
  have hslot := (canonical.slot_eq_iff_descriptor has has').mpr hdescriptor
  obtain ⟨slot, descriptor, type⟩ := h
  obtain ⟨slot', descriptor', type'⟩ := k
  simp_all

theorem Canonical.arrayOf (htype : t.type = .value v) :
    ∃ a, (pool.arrayOf t).result = .ok a ∧ a.type = .value v.array ∧
      pool.Grown (pool.arrayOf t).state [a] := by
  rw [TypePool.arrayOf, htype]
  exact canonical.intern (.value v.array)

theorem Canonical.nest (has : pool.Has t) (htype : t.type = .value v) (n : Nat) :
    ∃ a, (pool.nest t n).result = .ok a ∧ a.type = .value (ValueType.array^[n] v) ∧
      pool.Grown (pool.nest t n).state [a] := by
  induction n with
  | zero => exact ⟨t, rfl, htype, canonical, List.prefix_rfl, List.forall_mem_singleton.mpr has⟩
  | succ n ih =>
    obtain ⟨inner, hinner, hcells, grown⟩ := ih
    obtain ⟨a, hresult, harray, grown'⟩ := grown.canonical.arrayOf hcells
    rw [← Function.iterate_succ_apply' ValueType.array] at harray
    rw [TypePool.nest, (Outcome.andThen_of_ok hinner).1, (Outcome.andThen_of_ok hinner).2]
    exact ⟨a, hresult, harray, grown'.canonical, grown.extended.trans grown'.extended, grown'.has⟩

theorem Canonical.arrayOf_eq_ok_iff {cell : TypeHandle} (hasa : pool.Has a) (hascell : pool.Has cell)
    (htype : a.type = .value v.array) (hcell : cell.type = .value v) (hask : pool.Has k) :
    (pool.arrayOf k).result = .ok a ↔ k = cell := by
  constructor
  · intro hk
    refine canonical.eq_of_type hask hascell ?_
    cases hkind : k.type with
    | void =>
      rw [TypePool.arrayOf, hkind] at hk
      cases hk
    | value w =>
      obtain ⟨b, hb, harray, -⟩ := canonical.arrayOf hkind
      obtain rfl : b = a := by simpa [hb] using hk
      have hsame : w.array = v.array := by simpa [harray] using htype
      rw [hcell, ValueType.array_injective hsame]
  · rintro rfl
    -- the array has its entry already, and the call gives the entry of its type
    obtain ⟨b, hb, harray, grown⟩ := canonical.arrayOf hcell
    have hasb := grown.has b (List.mem_singleton_self b)
    rw [hb, grown.canonical.eq_of_type hasb (hasa.mono grown.extended) (harray.trans htype.symm)]

end Entries

end TypePool

namespace Typing

structure Decides (check : Except Error α) (value : α) (right : Prop) : Prop where
  passes : right → check = .ok value
  refuses : ¬ right → ∃ role expected found, check = .error (.typeMismatch role expected found)

theorem require_decides {holds : Bool} {role : Role} {expected : Expected} {found : Ty} :
    Decides (require holds (mismatch role expected found)) () (holds = true) where
  passes := by
    rintro rfl
    rfl
  refuses := by
    intro h
    exact ⟨role, expected, .type found, if_neg h⟩

theorem Decides.congr {check : Except Error α} {value : α} {p q : Prop}
    (decides : Decides check value p) (h : p ↔ q) : Decides check value q := by
  rwa [← propext h]

theorem Decides.andThen {check : Except Error Unit} {next : Except Error α} {value : α} {p q : Prop}
    (decides : Decides check () p) (decides' : Decides next value q) :
    Decides (check >>= fun _ => next) value (p ∧ q) where
  passes := by
    rintro ⟨hp, hq⟩
    rw [decides.passes hp, decides'.passes hq]
    rfl
  refuses := by
    intro h
    by_cases hp : p
    · obtain ⟨role, expected, found, herror⟩ := decides'.refuses fun hq => h ⟨hp, hq⟩
      exact ⟨role, expected, found, by rw [decides.passes hp, herror]; rfl⟩
    · obtain ⟨role, expected, found, herror⟩ := decides.refuses hp
      exact ⟨role, expected, found, by rw [herror]; rfl⟩

theorem Decides.yield {check : Except Error Unit} {p : Prop} (decides : Decides check () p) (value : α) :
    Decides (check >>= fun _ => pure value) value p := by
  have always : Decides (pure value) value True := ⟨fun _ => rfl, fun h => absurd trivial h⟩
  exact (decides.andThen always).congr ⟨And.left, fun hp => ⟨hp, trivial⟩⟩

theorem element_of_not_isArray {s t : Ty} (h : s.isArray = false) :
    element s t = .error (mismatch .array .array s) := by
  simp [element, Ty.elementChars?, h]

theorem element_array (v : ValueType) (t : Ty) :
    element (.value v.array) t = require (fitsCell v.chars t)
      (mismatch .arrayElement (.cell (String.ofList v.chars)) t) := by
  rw [element, Ty.elementChars?_array]

theorem element_decides (s t : Ty) : Decides (element s t) () (s.HasCells t) := by
  cases harray : s.isArray with
  | false => exact ⟨element_eq_ok.mpr, fun _ => ⟨_, _, _, element_of_not_isArray harray⟩⟩
  | true =>
    obtain ⟨v, rfl⟩ := Ty.isArray_iff.mp harray
    rw [element_array, Ty.hasCells_array]
    exact require_decides.congr fitsCell_iff

theorem index_decides (t : Ty) :
    Decides (primitive .arrayIndex Statement.isInt t) () (t = .primitive .int) := by
  have hpasses : t.primitive?.any Statement.isInt = true ↔ t.Is Statement.isInt :=
    require_eq_ok.symm.trans (@primitive_eq_ok .arrayIndex Statement.isInt t ())
  have hint : t.Is Statement.isInt ↔ t = .primitive .int :=
    ⟨Statement.eq_int_of_is, fun h => ⟨.int, h, rfl⟩⟩
  exact require_decides.congr (hpasses.trans hint)

theorem access_decides (array x index : Local) (i : Instruction Local) :
    Decides (do
        element array.type x.type
        primitive .arrayIndex Statement.isInt index.type
        return [i]) [i] (array.type.HasCells x.type ∧ index.type = .primitive .int) :=
  (element_decides array.type x.type).andThen ((index_decides index.type).yield [i])

end Typing

/-- The statement becomes one instruction if its types are right, and is refused for its types if not. -/
structure Statement.Becomes (statement : Statement) (i : Instruction Local) (right : Prop) : Prop where
  taken : right → ∀ a : Assembler, a.emit statement = a.appendAll [i]
  refused : ¬ right → ∀ a : Assembler, ∃ role expected found,
    a.emit statement = .fail a (.typeMismatch role expected found)

theorem Statement.becomes_of_decides {statement : Statement} {i : Instruction Local} {right : Prop}
    (decides : ∀ method, Typing.Decides (statement.instructions method) [i] right) :
    statement.Becomes i right where
  taken := by
    intro h a
    rw [Assembler.emit, (decides a.method).passes h]
  refused := by
    intro h a
    obtain ⟨role, expected, found, herror⟩ := (decides a.method).refuses h
    exact ⟨role, expected, found, by rw [Assembler.emit, herror]⟩

namespace TypePool

/-- What the arrays of a pool are to whoever makes them, looks at them and accesses them. -/
structure ArraysAgree (pool : TypePool) : Prop where
  made : ∀ t, pool.Has t → t.type ≠ .void → ∃ a, (pool.arrayOf t).result = .ok a ∧
    (pool.arrayOf t).state.Has a ∧ a.type.elementDescriptor? = some t.descriptor ∧
    ∀ role e, (Typing.element a.type e = .ok () ↔ Typing.assignable role t.type e = .ok ()) ∧
      (Typing.element a.type e = .ok () ↔
        t.type = e ∨ t.type.isReference = true ∧ e.isReference = true)
  nested : ∀ t, pool.Has t → t.type ≠ .void → ∀ n, ∃ a, (pool.nest t n).result = .ok a ∧
    (pool.nest t n).state.Has a ∧
    a.descriptor = String.ofList (List.replicate n '[' ++ t.descriptor.toList)
  unique : ∀ a, pool.Has a → a.type.isArray = true → ∃ text cell,
    a.type.elementDescriptor? = some text ∧ (pool.ofDescriptor text).result = .ok cell ∧
      (pool.ofDescriptor text).state.Has cell ∧ ∀ k, (pool.ofDescriptor text).state.Has k →
        (((pool.ofDescriptor text).state.arrayOf k).result = .ok a ↔ k = cell)
  others : ∀ s e, s.isArray = false → Typing.element s e = .error (Typing.mismatch .array .array s)
  gets : ∀ dst array index, (Statement.arrayGet dst array index).Becomes (.arrayGet dst array index)
    (array.type.HasCells dst.type ∧ index.type = .primitive .int)
  puts : ∀ array index src, (Statement.arrayPut array index src).Becomes (.arrayPut array index src)
    (array.type.HasCells src.type ∧ index.type = .primitive .int)

/-- Whatever was asked of a pool, the cells of an array are the type that it was made of, by its
descriptor as by its structure, and accesses are checked against that type. -/
theorem answerAll_arraysAgree (history : List Query) : (empty.answerAll history).ArraysAgree := by
  have canonical := (empty_canonical.answerAll history).canonical
  refine
    { made := fun t has hvalue => ?_
      nested := fun t has hvalue n => ?_
      unique := fun a has harray => ?_
      others := fun s e => Typing.element_of_not_isArray
      gets := fun dst array index => Statement.becomes_of_decides fun method =>
        Typing.access_decides array dst index (.arrayGet dst array index)
      puts := fun array index src => Statement.becomes_of_decides fun method =>
        Typing.access_decides array src index (.arrayPut array index src) }
  · obtain ⟨v, htype⟩ := Ty.exists_value hvalue
    obtain ⟨a, hresult, harray, grown⟩ := canonical.arrayOf htype
    refine ⟨a, hresult, grown.has a (List.mem_singleton_self a), ?_, fun role e => ?_⟩
    · rw [harray, Ty.elementDescriptor?_array, canonical.descriptor has, htype]
    · rw [harray, htype, Typing.element_eq_ok, Typing.assignable_eq_ok, Ty.hasCells_array]
      exact ⟨Iff.rfl, Iff.rfl⟩
  · obtain ⟨v, htype⟩ := Ty.exists_value hvalue
    obtain ⟨a, hresult, harray, grown⟩ := canonical.nest has htype n
    have hasa := grown.has a (List.mem_singleton_self a)
    refine ⟨a, hresult, hasa, ?_⟩
    rw [grown.canonical.descriptor hasa, harray, canonical.descriptor has, htype]
    simp [Ty.descriptor, Ty.chars, ValueType.chars_iterate_array]
  · obtain ⟨v, htype⟩ := Ty.isArray_iff.mp harray
    have hread := (Ty.roundTrips.parse_iff (Ty.value v).descriptor (.value v)).mpr rfl
    obtain ⟨cell, hresult, -, hcell, grown⟩ := canonical.ofDescriptor hread
    have hascell := grown.has cell (List.mem_singleton_self cell)
    refine ⟨(Ty.value v).descriptor, cell, ?_, hresult, hascell, fun k hask => ?_⟩
    · rw [htype, Ty.elementDescriptor?_array]
    · exact grown.canonical.arrayOf_eq_ok_iff (has.mono grown.extended) hascell htype hcell hask

end TypePool
end Dalvik
