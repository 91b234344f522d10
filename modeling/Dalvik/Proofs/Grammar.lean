import Dalvik.Proofs.RoundTrip

/-! The language of names and descriptors, and that the checks and the reader accept all of it and
nothing else. -/
namespace Dalvik

/-- The name of a field or method. Only the two initializers are written in angle brackets. -/
structure IsMemberName (text : List Char) : Prop where
  nonempty : text ≠ []
  plain : ∀ c ∈ text, c ∉ ['.', ';', '[', '/']
  brackets : text = "<init>".toList ∨ text = "<clinit>".toList ∨ ∀ c ∈ text, c ∉ ['<', '>']

structure IsSegment (text : List Char) : Prop where
  nonempty : text ≠ []
  plain : ∀ c ∈ text, c ∉ ['.', ';', '[', '<', '>', '/']

def IsClassName (text : List Char) : Prop :=
  ∃ parts, parts ≠ [] ∧ (∀ part ∈ parts, IsSegment part) ∧ text = ['/'].intercalate parts

/-- Cells hold values, so no bracket stands before the void. -/
inductive IsDescriptor : List Char → Prop
  | void : IsDescriptor ['V']
  | primitive (dimensions : Nat) (c : Char) (h : c ∈ ['B', 'C', 'D', 'F', 'I', 'J', 'S', 'Z']) :
    IsDescriptor (List.replicate dimensions '[' ++ [c])
  | object (dimensions : Nat) (name : List Char) (h : IsClassName name) :
    IsDescriptor (List.replicate dimensions '[' ++ ('L' :: name ++ [';']))

variable {text : List Char} {c : Char}

theorem ite_some_eq_none {p : Prop} [Decidable p] {x : α} {y : Option α} :
    (if p then some x else y) = none ↔ ¬ p ∧ y = none := by
  split <;> simp [*]

theorem any_isSeparator : text.any isSeparator = false ↔ ∀ c ∈ text, c ∉ ['.', ';', '[', '/'] := by
  simp [isSeparator, and_assoc]

theorem any_isAngleBracket : text.any isAngleBracket = false ↔ ∀ c ∈ text, c ∉ ['<', '>'] := by
  simp [isAngleBracket]

theorem memberFault?_eq_none : memberFault? text = none ↔ IsMemberName text := by
  have hbrackets : (text.any isAngleBracket && text != initializerText &&
      text != classInitializerText) = false ↔
        text = initializerText ∨ text = classInitializerText ∨ ∀ c ∈ text, c ∉ ['<', '>'] := by
    rw [← any_isAngleBracket]
    simp only [Bool.and_eq_false_iff, bne_eq_false_iff_eq]
    tauto
  simp only [memberFault?, ite_some_eq_none, Bool.not_eq_true, any_isSeparator, hbrackets,
    List.isEmpty_eq_false_iff, and_true]
  constructor
  · rintro ⟨hplain, hempty, hbrackets⟩
    exact ⟨hempty, hplain, hbrackets⟩
  · rintro ⟨hempty, hplain, hbrackets⟩
    exact ⟨hplain, hempty, hbrackets⟩

theorem segments_eq_splitOn (text : List Char) : segments text = text.splitOn '/' := by
  induction text with
  | nil => rfl
  | cons c text ih =>
    have hsegments : segments (c :: text) = prependChar c (segments text) := rfl
    rw [hsegments, ih]
    simp only [List.splitOn_eq_splitOnP, List.splitOnP_cons_eq_if_modifyHead, beq_iff_eq, prependChar]
    congr 1
    cases hparts : List.splitOnP (fun d => d == '/') text with
    | nil => exact absurd hparts (List.splitOnP_ne_nil _ text)
    | cons first others => rfl

theorem isSegment_iff : IsSegment text ↔ IsMemberName text ∧ ∀ c ∈ text, c ∉ ['<', '>'] := by
  constructor
  · rintro ⟨hempty, hplain⟩
    have hbrackets : ∀ c ∈ text, c ∉ ['<', '>'] := by grind
    exact ⟨⟨hempty, by grind, .inr (.inr hbrackets)⟩, hbrackets⟩
  · rintro ⟨⟨hempty, hplain, -⟩, hbrackets⟩
    exact ⟨hempty, by grind⟩

theorem classFault?_eq_none : classFault? text = none ↔ IsClassName text := by
  simp only [classFault?, ite_some_eq_none, Bool.not_eq_true, any_isAngleBracket,
    List.isEmpty_eq_false_iff, List.findSome?_eq_none_iff, memberFault?_eq_none]
  constructor
  · rintro ⟨hempty, hbrackets, hparts⟩
    refine ⟨segments text, ?_, fun part hpart => ?_, ?_⟩
    · rw [segments_eq_splitOn]
      exact List.splitOn_ne_nil '/' text
    · refine isSegment_iff.mpr ⟨hparts part hpart, fun c hc => ?_⟩
      exact hbrackets c (mem_segments_iff.mp ⟨part, hpart, hc⟩).1
    · rw [segments_eq_splitOn, List.intercalate_splitOn]
  · rintro ⟨parts, hne, hparts, htext⟩
    -- segments hold no slash, so the text comes apart where it was joined
    have hslash (part : List Char) (hpart : part ∈ parts) : '/' ∉ part := fun hc =>
      (hparts part hpart).plain '/' hc (by decide)
    have hsegments : segments text = parts := by
      rw [segments_eq_splitOn, htext, List.splitOn_intercalate '/' hslash hne]
    rw [hsegments]
    refine ⟨?_, fun c hc hbracket => ?_, fun part hpart => (isSegment_iff.mp (hparts part hpart)).1⟩
    · rintro rfl
      have hnil : [] ∈ parts := by rw [← hsegments]; exact List.mem_singleton_self []
      exact (hparts [] hnil).nonempty rfl
    · have hother : c ≠ '/' := by
        rintro rfl
        exact absurd hbracket (by decide)
      obtain ⟨part, hpart, hmem⟩ := mem_segments_iff.mpr ⟨hc, hother⟩
      exact (isSegment_iff.mp (hparts part (hsegments ▸ hpart))).2 c hmem hbracket

theorem Primitive.exists_code_iff :
    (∃ p : Primitive, p.code = c) ↔ c ∈ ['B', 'C', 'D', 'F', 'I', 'J', 'S', 'Z'] := by
  have hcodes : ['B', 'C', 'D', 'F', 'I', 'J', 'S', 'Z'] = Primitive.all.map code := rfl
  have hall (p : Primitive) : p ∈ Primitive.all := by cases p <;> decide
  simp [hcodes, hall]

theorem Element.isDescriptor (e : Element) (dimensions : Nat) :
    IsDescriptor (List.replicate dimensions '[' ++ e.chars) := by
  cases e with
  | primitive p => exact .primitive dimensions p.code (Primitive.exists_code_iff.mp ⟨p, rfl⟩)
  | object name => exact .object dimensions name.text.toList (classFault?_eq_none.mp name.valid)

theorem Ty.isDescriptor_chars (t : Ty) : IsDescriptor t.chars := by
  cases t with
  | void => exact .void
  | value v =>
    cases v with
    | primitive p => exact (Element.primitive p).isDescriptor 0
    | reference r =>
      cases r with
      | object name => exact (Element.object name).isDescriptor 0
      | array additional element => exact element.isDescriptor (additional + 1)

theorem IsDescriptor.exists_type (h : IsDescriptor text) : ∃ t : Ty, t.chars = text := by
  cases h with
  | void => exact ⟨.void, rfl⟩
  | primitive dimensions c hc =>
    obtain ⟨p, rfl⟩ := Primitive.exists_code_iff.mpr hc
    exact ⟨.value (ValueType.array^[dimensions] (.primitive p)),
      ValueType.chars_iterate_array _ dimensions⟩
  | object dimensions name hname =>
    have hvalid : classFault? (String.ofList name).toList = none := by
      rw [String.toList_ofList]
      exact classFault?_eq_none.mpr hname
    refine ⟨.value (ValueType.array^[dimensions] (.reference (.object ⟨String.ofList name, hvalid⟩))), ?_⟩
    rw [Ty.chars, ValueType.chars_iterate_array]
    simp [ValueType.chars, RefType.chars, ClassName.chars]

theorem IsDescriptor.ends (h : IsDescriptor text) :
    text = ['V'] ∨ ∃ c ∈ ['B', 'C', 'D', 'F', 'I', 'J', 'S', 'Z', ';'], text.getLast? = some c := by
  cases h with
  | void => exact .inl rfl
  | primitive dimensions c hc => exact .inr ⟨c, List.mem_append_left [';'] hc, by simp⟩
  | object dimensions name hname => exact .inr ⟨';', by decide, by simp [List.getLast?_cons]⟩

theorem parse_isOk_iff {text : String} : (∃ t, Ty.parse text = .ok t) ↔ IsDescriptor text.toList := by
  simp only [Ty.roundTrips.parse_iff]
  constructor
  · rintro ⟨t, rfl⟩
    rw [Ty.descriptor, String.toList_ofList]
    exact t.isDescriptor_chars
  · intro h
    obtain ⟨t, ht⟩ := h.exists_type
    exact ⟨t, by rw [Ty.descriptor, ht, String.ofList_toList]⟩

/-- The checks on names and the reader of descriptors accept exactly the texts of the language. -/
theorem language_accepted_iff (text : String) :
    (memberFault? text.toList = none ↔ IsMemberName text.toList) ∧
      (classFault? text.toList = none ↔ IsClassName text.toList) ∧
      ((∃ t, Ty.parse text = .ok t) ↔ IsDescriptor text.toList) ∧
      ∀ n t, Ty.parse (String.ofList (List.replicate (n + 1) '[' ++ ['V'])) ≠ .ok t := by
  refine ⟨memberFault?_eq_none, classFault?_eq_none, parse_isOk_iff, fun n t h => ?_⟩
  have hvoids := parse_isOk_iff.mp ⟨t, h⟩
  rw [String.toList_ofList] at hvoids
  obtain hvoid | ⟨c, hc, hlast⟩ := hvoids.ends
  · simp [List.replicate_succ] at hvoid
  · obtain rfl : 'V' = c := by simpa using hlast
    exact absurd hc (by decide)

end Dalvik
