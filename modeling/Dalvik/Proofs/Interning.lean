import Dalvik.Proofs.Indexed
import Dalvik.Proofs.RoundTrip
import Dalvik.TypePool

/-! A pool of types has one entry for each type, whatever was asked of it before. Entries are only ever
added, each under the descriptor of its type, so a look-up that finds an entry and one that reads the
descriptor come to the same. -/
namespace Dalvik

namespace TypePool

inductive Query where
  | descriptor (text : String)
  | primitive (p : Primitive)
  | object (name : ClassName)
  | void
  | arrayOf (cell : TypeHandle)
  | standard
  deriving DecidableEq

/-- The types that a call is about, or why it is about none. -/
def Query.types : Query → Except Error (List Ty)
  | .descriptor text =>
    match Ty.parse text with
    | .error fault => .error (.malformedDescriptor text fault)
    | .ok type => .ok [type]
  | .primitive p => .ok [.primitive p]
  | .object name => .ok [.object name]
  | .void => .ok [.void]
  | .arrayOf cell =>
    match cell.type with
    | .void => .error (.voidNotAllowed .arrayElement)
    | .value type => .ok [.value type.array]
  | .standard => .ok standardTypes

def answer (pool : TypePool) : Query → Outcome TypePool (List TypeHandle)
  | .descriptor text => (pool.ofDescriptor text).map fun handle => [handle]
  | .primitive p => (pool.ofPrimitive p).map fun handle => [handle]
  | .object name => (pool.ofClass name).map fun handle => [handle]
  | .void => pool.void.map fun handle => [handle]
  | .arrayOf cell => (pool.arrayOf cell).map fun handle => [handle]
  | .standard => pool.standard

def answerAll (pool : TypePool) (history : List Query) : TypePool :=
  history.foldl (fun pool query => (pool.answer query).state) pool

def handles (pool : TypePool) : List Query → List TypeHandle
  | [] => []
  | query :: rest =>
    (pool.answer query).result.toOption.getD [] ++ (pool.answer query).state.handles rest

variable {pool later : TypePool} {h k : TypeHandle} {type : Ty} {text : String}

/-- Every entry stands under the descriptor of its type, where the index leads to. -/
structure Canonical (pool : TypePool) : Prop where
  keys : ∀ entry ∈ pool.types.entries, entry.1 = entry.2.descriptor
  coherent : pool.types.Coherent

theorem empty_canonical : empty.Canonical where
  keys := by simp [empty, Registry.empty]
  coherent := Registry.empty_coherent

def Has (pool : TypePool) (h : TypeHandle) : Prop :=
  pool.types.entries[h.slot]? = some (h.descriptor, h.type)

def Extends (later pool : TypePool) : Prop := pool.types.entries <+: later.types.entries

theorem Has.mono (has : pool.Has h) (extends_ : later.Extends pool) : later.Has h := by
  obtain ⟨added, hadded⟩ := extends_
  have hslot := (List.getElem?_eq_some_iff.mp has).1
  rw [Has, ← hadded, List.getElem?_append_left hslot]
  exact has

section Handles

variable (canonical : pool.Canonical)
include canonical

theorem Canonical.descriptor (has : pool.Has h) : h.descriptor = h.type.descriptor :=
  canonical.keys _ (List.mem_of_getElem? has)

theorem Canonical.slot_eq_iff_descriptor (has : pool.Has h) (has' : pool.Has k) :
    h.slot = k.slot ↔ h.descriptor = k.descriptor := by
  have hkey : (pool.types.entries.map Prod.fst)[h.slot]? = some h.descriptor := by
    rw [List.getElem?_map, has]
    rfl
  have hkey' : (pool.types.entries.map Prod.fst)[k.slot]? = some k.descriptor := by
    rw [List.getElem?_map, has']
    rfl
  constructor
  · intro hslot
    rw [hslot, hkey'] at hkey
    exact (Option.some.inj hkey).symm
  · intro hdescriptor
    rw [← hdescriptor] at hkey'
    exact (List.getElem?_inj (List.getElem?_eq_some_iff.mp hkey).1 canonical.coherent.nodup).mp
      (hkey.trans hkey'.symm)

theorem Canonical.descriptor_eq_iff_type (has : pool.Has h) (has' : pool.Has k) :
    h.descriptor = k.descriptor ↔ h.type = k.type := by
  rw [canonical.descriptor has, canonical.descriptor has']
  exact Ty.roundTrips.render_injective.eq_iff

theorem Canonical.find?_eq_some (hfound : pool.find? text = some h) :
    pool.Has h ∧ h.descriptor = text := by
  obtain ⟨slot, hslot, hhandle⟩ := Option.bind_eq_some_iff.mp hfound
  obtain ⟨entry, hentry, rfl⟩ := Option.map_eq_some_iff.mp hhandle
  obtain ⟨type, htype⟩ := (canonical.coherent.position text slot).mp hslot
  rw [hentry] at htype
  exact ⟨hentry, congrArg Prod.fst (Option.some.inj htype)⟩

theorem Canonical.find?_eq_none (hmissing : pool.find? text = none) :
    pool.types.contains text = false := by
  rw [Registry.contains, Option.isSome_eq_false_iff, Option.isNone_iff_eq_none,
    Option.eq_none_iff_forall_ne_some]
  intro slot hslot
  obtain ⟨type, htype⟩ := (canonical.coherent.position text slot).mp hslot
  simp [find?, hslot, htype] at hmissing

end Handles

structure Grown (pool later : TypePool) (handles : List TypeHandle) : Prop where
  canonical : later.Canonical
  extended : later.Extends pool
  has : ∀ h ∈ handles, later.Has h

theorem Canonical.grown (canonical : pool.Canonical) : pool.Grown pool [] where
  canonical := canonical
  extended := List.prefix_rfl
  has := List.forall_mem_nil _

theorem Grown.trans {first second : List TypeHandle} {last : TypePool}
    (grown : pool.Grown later first) (grown' : later.Grown last second) :
    pool.Grown last (first ++ second) where
  canonical := grown'.canonical
  extended := grown.extended.trans grown'.extended
  has := by
    intro h hh
    obtain hh | hh := List.mem_append.mp hh
    · exact (grown.has h hh).mono grown'.extended
    · exact grown'.has h hh

theorem Canonical.push (canonical : pool.Canonical)
    (hmissing : pool.types.contains type.descriptor = false) :
    pool.Grown ⟨pool.types.push type.descriptor type⟩
      [⟨pool.types.size, type.descriptor, type⟩] where
  canonical :=
    { keys := by
        intro entry hentry
        obtain hentry | hentry := List.mem_append.mp hentry
        · exact canonical.keys entry hentry
        · obtain rfl := List.mem_singleton.mp hentry
          rfl
      coherent := canonical.coherent.push hmissing type }
  extended := List.prefix_append _ _
  has := by simp [Has, Registry.push, Registry.size]

theorem Canonical.intern (canonical : pool.Canonical) (type : Ty) :
    ∃ h, (pool.intern type).result = .ok h ∧ h.type = type ∧
      pool.Grown (pool.intern type).state [h] := by
  cases hfound : pool.find? type.descriptor with
  | some h =>
    obtain ⟨has, hdescriptor⟩ := canonical.find?_eq_some hfound
    rw [canonical.descriptor has] at hdescriptor
    simp only [TypePool.intern, hfound]
    exact ⟨h, rfl, Ty.roundTrips.render_injective hdescriptor, canonical, List.prefix_rfl,
      by simpa [Outcome.ok] using has⟩
  | none =>
    simp only [TypePool.intern, hfound]
    exact ⟨_, rfl, rfl, canonical.push (canonical.find?_eq_none hfound)⟩

theorem Canonical.ofDescriptor (canonical : pool.Canonical) (hread : Ty.parse text = .ok type) :
    ∃ h, (pool.ofDescriptor text).result = .ok h ∧ h.descriptor = text ∧ h.type = type ∧
      pool.Grown (pool.ofDescriptor text).state [h] := by
  have htext : type.descriptor = text := Ty.roundTrips.render_parse text type hread
  cases hfound : pool.find? text with
  | some h =>
    obtain ⟨has, rfl⟩ := canonical.find?_eq_some hfound
    simp only [TypePool.ofDescriptor, hfound]
    refine ⟨h, rfl, rfl, ?_, canonical, List.prefix_rfl, by simpa [Outcome.ok] using has⟩
    rw [canonical.descriptor has] at htext
    exact (Ty.roundTrips.render_injective htext).symm
  | none =>
    simp only [TypePool.ofDescriptor, hfound, hread]
    obtain ⟨h, hresult, rfl, grown⟩ := canonical.intern type
    refine ⟨h, hresult, ?_, rfl, grown⟩
    rw [← htext]
    exact grown.canonical.descriptor (grown.has h (List.mem_singleton_self h))

theorem Canonical.ofDescriptor_error (canonical : pool.Canonical) {fault : DescriptorFault}
    (hread : Ty.parse text = .error fault) :
    pool.ofDescriptor text = .fail pool (.malformedDescriptor text fault) := by
  cases hfound : pool.find? text with
  | some h =>
    obtain ⟨has, rfl⟩ := canonical.find?_eq_some hfound
    have hok := (Ty.roundTrips.parse_iff _ h.type).mpr (canonical.descriptor has).symm
    rw [hread] at hok
    cases hok
  | none => simp only [TypePool.ofDescriptor, hfound, hread]

theorem Canonical.internAll (canonical : pool.Canonical) (types : List Ty) :
    ∃ hs, (pool.internAll types).result = .ok hs ∧ hs.map TypeHandle.type = types ∧
      pool.Grown (pool.internAll types).state hs := by
  induction types generalizing pool with
  | nil => exact ⟨[], rfl, rfl, canonical.grown⟩
  | cons type types ih =>
    obtain ⟨h, hfirst, rfl, grown⟩ := canonical.intern type
    obtain ⟨hs, hrest, rfl, grown'⟩ := ih grown.canonical
    refine ⟨h :: hs, ?_, rfl, ?_⟩
    · rw [TypePool.internAll, (Outcome.andThen_of_ok hfirst).1, Outcome.map, hrest]
      rfl
    · rw [TypePool.internAll, (Outcome.andThen_of_ok hfirst).2]
      exact grown.trans grown'

/-- A call gives handles of the types that it is about, or it fails and does nothing. -/
theorem Canonical.answer (canonical : pool.Canonical) (query : Query) :
    (∃ hs, (pool.answer query).result = .ok hs ∧ query.types = .ok (hs.map TypeHandle.type) ∧
      pool.Grown (pool.answer query).state hs) ∨
    ∃ e, query.types = .error e ∧ pool.answer query = .fail pool e := by
  have interned (type : Ty) : ∃ hs, ((pool.intern type).map fun handle => [handle]).result = .ok hs ∧
      (.ok [type] : Except Error (List Ty)) = .ok (hs.map TypeHandle.type) ∧
        pool.Grown (pool.intern type).state hs := by
    obtain ⟨h, hresult, rfl, grown⟩ := canonical.intern type
    exact ⟨[h], by rw [Outcome.map, hresult]; rfl, rfl, grown⟩
  cases query with
  | descriptor text =>
    cases hread : Ty.parse text with
    | error fault =>
      refine .inr ⟨.malformedDescriptor text fault, by simp only [Query.types, hread], ?_⟩
      simp only [TypePool.answer, canonical.ofDescriptor_error hread]
      rfl
    | ok type =>
      obtain ⟨h, hresult, -, rfl, grown⟩ := canonical.ofDescriptor hread
      refine .inl ⟨[h], ?_, by simp only [Query.types, hread, List.map], grown⟩
      rw [TypePool.answer, Outcome.map, hresult]
      rfl
  | primitive p => exact .inl (interned (.primitive p))
  | object name => exact .inl (interned (.object name))
  | void => exact .inl (interned .void)
  | arrayOf cell =>
    simp only [TypePool.answer, TypePool.arrayOf, Query.types]
    cases cell.type with
    | void => exact .inr ⟨_, rfl, rfl⟩
    | value type => exact .inl (interned (.value type.array))
  | standard =>
    obtain ⟨hs, hresult, htypes, grown⟩ := canonical.internAll standardTypes
    exact .inl ⟨hs, hresult, by rw [htypes]; rfl, grown⟩

theorem Canonical.answerAll (canonical : pool.Canonical) (history : List Query) :
    pool.Grown (pool.answerAll history) (pool.handles history) := by
  induction history generalizing pool with
  | nil => exact canonical.grown
  | cons query rest ih =>
    have hrun : pool.answerAll (query :: rest) = (pool.answer query).state.answerAll rest := rfl
    rw [hrun, TypePool.handles]
    obtain ⟨hs, hresult, -, grown⟩ | ⟨e, -, hfail⟩ := canonical.answer query
    · rw [hresult]
      exact grown.trans (ih grown.canonical)
    · rw [hfail]
      exact ih canonical

/-- What a pool is to whoever uses it, given the handles that it gave so far. -/
structure Interns (pool : TypePool) (given : List TypeHandle) : Prop where
  entries : ∀ key type, (key, type) ∈ pool.types.entries →
    key = type.descriptor ∧ Ty.parse key = .ok type
  once : (pool.types.entries.map Prod.fst).Nodup
  kept : ∀ history, pool.types.entries <+: (pool.answerAll history).types.entries
  has : ∀ h ∈ given, pool.Has h
  same : ∀ h ∈ given, ∀ k ∈ given,
    (h.equal k = true ↔ h.slot = k.slot) ∧ (h.slot = k.slot ↔ h.type = k.type)
  reads : ∀ text type, Ty.parse text = .ok type → ∃ h, (pool.ofDescriptor text).result = .ok h ∧
    h.descriptor = text ∧ h.type = type ∧ (pool.ofDescriptor text).state.Has h
  refuses : ∀ text fault, Ty.parse text = .error fault →
    pool.ofDescriptor text = .fail pool (.malformedDescriptor text fault)
  answers : ∀ query, (pool.answer query).result.map (List.map TypeHandle.type) = query.types
  unchanged : ∀ query e, (pool.answer query).result = .error e → (pool.answer query).state = pool

/-- Whatever was asked of a pool, it has one entry for each type that was asked for, and each call gives
what it would give of an empty pool. -/
theorem answerAll_interns (history : List Query) :
    (empty.answerAll history).Interns (empty.handles history) := by
  have grown := empty_canonical.answerAll history
  have canonical := grown.canonical
  refine
    { entries := fun key type hentry => ?_
      once := canonical.coherent.nodup
      kept := fun later => (canonical.answerAll later).extended
      has := grown.has
      same := fun h hh k hk => ?_
      reads := fun text type hread => ?_
      refuses := fun text fault hread => canonical.ofDescriptor_error hread
      answers := fun query => ?_
      unchanged := fun query e herror => ?_ }
  · obtain rfl : key = type.descriptor := canonical.keys _ hentry
    exact ⟨rfl, (Ty.roundTrips.parse_iff _ type).mpr rfl⟩
  · have hslot := canonical.slot_eq_iff_descriptor (grown.has h hh) (grown.has k hk)
    have htype := canonical.descriptor_eq_iff_type (grown.has h hh) (grown.has k hk)
    refine ⟨?_, hslot.trans htype⟩
    rw [hslot, TypeHandle.equal, beq_iff_eq]
  · obtain ⟨h, hresult, hdescriptor, htype, grown⟩ := canonical.ofDescriptor hread
    exact ⟨h, hresult, hdescriptor, htype, grown.has h (List.mem_singleton_self h)⟩
  · obtain ⟨hs, hresult, htypes, -⟩ | ⟨e, htypes, hfail⟩ := canonical.answer query
    · rw [hresult, htypes]
      rfl
    · rw [hfail, htypes]
      rfl
  · obtain ⟨hs, hresult, -⟩ | ⟨e, -, hfail⟩ := canonical.answer query
    · rw [herror] at hresult
      cases hresult
    · rw [hfail]
      rfl

end TypePool
end Dalvik
