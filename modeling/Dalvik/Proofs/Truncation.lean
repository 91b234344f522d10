import Dalvik.Proofs.RoundTrip

/-! Descriptors end by themselves. A reader stops where a descriptor ends, whatever comes next, and it
notices when the end is missing: then it takes all there is and reports that the input ended. -/
namespace Dalvik

def CutShort (cut text : List Char) : Prop := cut <+: text ∧ cut ≠ text

theorem cutShort_cons {cut text : List Char} {c : Char} :
    CutShort cut (c :: text) ↔ cut = [] ∨ ∃ rest, cut = c :: rest ∧ CutShort rest text := by
  unfold CutShort
  rw [List.prefix_cons_iff]
  constructor
  · rintro ⟨rfl | ⟨rest, rfl, hrest⟩, hne⟩
    · exact .inl rfl
    · exact .inr ⟨rest, rfl, hrest, fun h => hne (by rw [h])⟩
  · rintro (rfl | ⟨rest, rfl, hrest, hne⟩)
    · exact ⟨.inl rfl, (List.cons_ne_nil c text).symm⟩
    · exact ⟨.inr ⟨rest, rfl, hrest⟩, fun h => hne (List.cons.inj h).2⟩

theorem CutShort.eq_nil {cut : List Char} {c : Char} (h : CutShort cut [c]) : cut = [] := by
  obtain rfl | ⟨rest, -, hrest, hne⟩ := cutShort_cons.mp h
  · rfl
  · exact absurd (List.prefix_nil.mp hrest) hne

theorem CutShort.isPrefix {cut text : List Char} {c : Char} (h : CutShort cut (text ++ [c])) :
    cut <+: text :=
  (List.prefix_concat_iff.mp h.1).resolve_left h.2

theorem CutShort.starts {rest text : List Char} {c : Char} (h : CutShort (c :: rest) text) :
    ∃ more, c :: more = text := by
  obtain ⟨after, hafter⟩ := h.1
  exact ⟨rest ++ after, hafter⟩

namespace Reader

variable {α β : Type} {read : Reader α} {input : List Char}

def Starves (read : Reader α) (input : List Char) : Prop :=
  ∃ fault, read input = (.error fault, []) ∧ fault.isTruncation = true

theorem Starves.map (f : α → β) (starves : read.Starves input) : (read.map f).Starves input := by
  obtain ⟨fault, hread, htruncation⟩ := starves
  refine ⟨fault, ?_, htruncation⟩
  rw [Reader.map, hread]
  rfl

theorem Starves.parse {text : String} (starves : read.Starves text.toList) :
    ∃ fault, read.parse text = .error fault ∧ fault.isTruncation = true := by
  obtain ⟨fault, hread, htruncation⟩ := starves
  exact ⟨fault, by rw [Reader.parse, hread], htruncation⟩

end Reader

theorem Primitive.read_starves : Primitive.read.Starves [] := ⟨_, rfl, rfl⟩

theorem ClassName.read_starves (name : ClassName) {cut : List Char}
    (short : CutShort cut (name.text.toList ++ [';'])) : ClassName.read.Starves ('L' :: cut) := by
  have inside : ∀ c ∈ cut, insideName c = true := fun c hc =>
    name.insideName_of_mem (short.isPrefix.subset hc)
  have hrest : cut.dropWhile insideName = [] := List.dropWhile_eq_nil_iff.mpr inside
  refine ⟨.missingTerminator (String.ofList (cut.takeWhile insideName)), ?_, rfl⟩
  simp [read, hrest]

theorem Element.read_starves (e : Element) {cut : List Char} (short : CutShort cut e.chars) :
    Reader.Starves Element.read cut := by
  unfold Reader.Starves Element.read
  cases e with
  | primitive p =>
    obtain rfl := short.eq_nil
    exact Primitive.read_starves.map _
  | object name =>
    obtain rfl | ⟨rest, rfl, inner⟩ := cutShort_cons.mp short
    · exact Primitive.read_starves.map _
    · exact (name.read_starves inner).map _

theorem Element.chars_ne_nil (e : Element) : e.chars ≠ [] := by
  cases e <;> exact List.cons_ne_nil _ _

theorem CutShort.dropBrackets {n : Nat} {e : Element} {cut : List Char}
    (short : CutShort cut (List.replicate n '[' ++ e.chars)) :
    CutShort (cut.dropWhile isBracket) e.chars := by
  induction n generalizing cut with
  | zero =>
    -- an element does not start with a bracket, so nothing is dropped
    have hstart : cut.dropWhile isBracket = cut := by
      cases cut with
      | nil => rfl
      | cons c rest =>
        obtain ⟨more, hmore⟩ := short.starts
        have hc : isBracket c = false := e.not_isBracket_head [] c (by
          simpa using congrArg List.head? hmore.symm)
        exact List.dropWhile_cons_of_neg (by simp [hc])
    rw [hstart]
    exact short
  | succ n ih =>
    obtain rfl | ⟨rest, rfl, inner⟩ := cutShort_cons.mp short
    · exact ⟨List.nil_prefix, e.chars_ne_nil.symm⟩
    · rw [List.dropWhile_cons_of_pos rfl]
      exact ih inner

theorem RefType.read_starves (r : RefType) {cut : List Char} (short : CutShort cut r.chars) :
    Reader.Starves RefType.read cut := by
  cases r with
  | object name =>
    obtain rfl | ⟨rest, rfl, inner⟩ := cutShort_cons.mp short
    · exact ⟨_, rfl, rfl⟩
    · exact (name.read_starves inner).map _
  | array additional element =>
    obtain rfl | ⟨rest, rfl, inner⟩ := cutShort_cons.mp short
    · exact ⟨_, rfl, rfl⟩
    · exact (element.read_starves inner.dropBrackets).map _

theorem ValueType.read_starves (v : ValueType) {cut : List Char} (short : CutShort cut v.chars) :
    Reader.Starves ValueType.read cut := by
  cases cut with
  | nil => exact ⟨_, rfl, rfl⟩
  | cons c rest =>
    cases v with
    | primitive p => cases short.eq_nil
    | reference r =>
      obtain ⟨more, hmore⟩ := short.starts
      have hstart : c = 'L' ∨ c = '[' :=
        RefType.start_of_append (hmore.trans (List.append_nil r.chars).symm)
      have hread : ValueType.read (c :: rest) = Reader.map .reference RefType.read (c :: rest) :=
        if_pos (by simpa using hstart)
      rw [Reader.Starves, hread]
      exact (r.read_starves short).map _

theorem Ty.read_starves (t : Ty) {cut : List Char} (short : CutShort cut t.chars) :
    Reader.Starves Ty.read cut := by
  cases t with
  | void =>
    obtain rfl := short.eq_nil
    exact ⟨_, rfl, rfl⟩
  | value v =>
    unfold Reader.Starves Ty.read
    split
    · rename_i rest
      obtain ⟨more, hmore⟩ := short.starts
      exact absurd rfl (ValueType.start_ne_void (hmore.trans (List.append_nil v.chars).symm))
    · exact (v.read_starves short).map _

/-- A reader needs nothing but the descriptor to know where it ends. -/
structure Ty.Delimited (t : Ty) : Prop where
  reads : ∀ rest, Ty.read (t.descriptor.toList ++ rest) = (.ok t, rest)
  longer : ∀ rest, rest ≠ "" →
    ∃ fault, Ty.parse (t.descriptor ++ rest) = .error fault ∧ fault.isTruncation = false
  shorter : ∀ cut lost, cut ++ lost = t.descriptor → lost ≠ "" →
    ∃ fault, Ty.parse cut = .error fault ∧ fault.isTruncation = true

/-- Every descriptor is read up to its end and no further, more than it is refused, and less than it is
noticed. -/
theorem Ty.delimited (t : Ty) : t.Delimited := by
  have reads (rest : List Char) : Ty.read (t.descriptor.toList ++ rest) = (.ok t, rest) := by
    rw [Ty.descriptor, String.toList_ofList]
    exact (Ty.read_inverts _ t rest).mpr rfl
  refine ⟨reads, fun rest hrest => ?_, fun cut lost hcut hlost => ?_⟩
  · cases hchars : rest.toList with
    | nil => exact absurd (String.toList_eq_nil_iff.mp hchars) hrest
    | cons c more =>
      refine ⟨.leftover c, ?_, rfl⟩
      rw [Ty.parse, Reader.parse, String.toList_append, hchars, reads]
  · have hchars : cut.toList ++ lost.toList = t.chars := by
      rw [← String.toList_append, hcut, Ty.descriptor, String.toList_ofList]
    refine (t.read_starves ⟨⟨lost.toList, hchars⟩, fun hall => hlost ?_⟩).parse
    rw [← hall, List.append_right_eq_self] at hchars
    exact String.toList_eq_nil_iff.mp hchars

end Dalvik
