import Dalvik.Descriptor.Parser
import Dalvik.Proofs.Descriptors
import Mathlib.Data.List.TakeWhile

/-! Reading and writing undo each other. A reader takes a written form off the front of its input,
whatever follows it, and takes nothing else; so a text is read as a type exactly if that is how the
type is written. -/
namespace Dalvik

theorem mem_prependChar_iff {c d : Char} {parts : List (List Char)} :
    (∃ part ∈ prependChar d parts, c ∈ part) ↔ (c = d ∧ d ≠ '/') ∨ ∃ part ∈ parts, c ∈ part := by
  unfold prependChar
  split
  · simp [*]
  · cases parts <;> simp [*, or_assoc]

theorem mem_segments_iff {c : Char} {text : List Char} :
    (∃ part ∈ segments text, c ∈ part) ↔ c ∈ text ∧ c ≠ '/' := by
  induction text with
  | nil => simp [segments]
  | cons d text ih =>
    have hsegments : segments (d :: text) = prependChar d (segments text) := rfl
    rw [hsegments, mem_prependChar_iff, ih, List.mem_cons, or_and_right]
    exact or_congr_left (and_congr_right fun h => by rw [h])

theorem ClassName.insideName_of_mem (name : ClassName) {c : Char} (hc : c ∈ name.text.toList) :
    insideName c = true := by
  have hvalid := name.valid
  unfold classFault? at hvalid
  split at hvalid
  · cases hvalid
  · split at hvalid
    · cases hvalid
    · by_contra hinside
      obtain rfl : c = ';' := by simpa [insideName] using hinside
      obtain ⟨part, hpart, hmem⟩ := mem_segments_iff.mpr ⟨hc, by decide⟩
      have hfault : (memberFault? part).isSome = true := by
        have hseparator : part.any isSeparator = true := List.any_eq_true.mpr ⟨';', hmem, rfl⟩
        simp [memberFault?, hseparator]
      have hnone := List.findSome?_eq_none_iff.mp hvalid part hpart
      simp [hnone] at hfault

theorem ClassName.of_eq_ok {text : String} {name : ClassName} :
    ClassName.of text = .ok name ↔ name.text = text := by
  obtain ⟨text', valid⟩ := name
  unfold ClassName.of
  split
  · simp [eq_comm]
  · rename_i fault hfault
    simp only [reduceCtorEq, false_iff]
    rintro rfl
    rw [valid] at hfault
    cases hfault

namespace Reader

variable {α β : Type} {read : Reader α} {write : α → List Char}

/-- A reader succeeds exactly on what is written, and leaves what follows. -/
def Inverts (read : Reader α) (write : α → List Char) : Prop :=
  ∀ input a rest, read input = (.ok a, rest) ↔ input = write a ++ rest

theorem map_eq_ok {f : α → β} {input rest : List Char} {b : β} :
    Reader.map f read input = (.ok b, rest) ↔ ∃ a, read input = (.ok a, rest) ∧ f a = b := by
  unfold Reader.map
  obtain ⟨result, left⟩ := read input
  cases result with
  | error fault => simp [Except.map]
  | ok a =>
    simp only [Except.map, Prod.mk.injEq, Except.ok.injEq]
    constructor
    · rintro ⟨rfl, rfl⟩
      exact ⟨a, ⟨rfl, rfl⟩, rfl⟩
    · rintro ⟨_, ⟨rfl, rfl⟩, rfl⟩
      exact ⟨rfl, rfl⟩

theorem parse_eq_ok {text : String} {a : α} :
    read.parse text = .ok a ↔ read text.toList = (.ok a, []) := by
  unfold Reader.parse
  split <;> simp [*]

end Reader

theorem Primitive.ofCode?_eq_some {c : Char} {p : Primitive} : ofCode? c = some p ↔ p.code = c := by
  constructor
  · intro h
    simpa using List.find?_some h
  · rintro rfl
    exact p.ofCode?_code

theorem Primitive.read_inverts : Reader.Inverts Primitive.read Primitive.chars := by
  intro input p rest
  cases input with
  | nil => simp [read, chars]
  | cons c input =>
    have hcode := ofCode?_eq_some (c := c) (p := p)
    simp only [read, chars, List.singleton_append, List.cons.injEq]
    cases hfound : ofCode? c with
    | none =>
      rw [hfound] at hcode
      simp only [reduceCtorEq, false_iff] at hcode
      simp [Ne.symm hcode]
    | some q =>
      rw [hfound, Option.some.injEq] at hcode
      simp only [Prod.mk.injEq, Except.ok.injEq, hcode, eq_comm (a := c)]

theorem takeWhile_dropWhile_iff {p : Char → Bool} {text s t : List Char} :
    text.takeWhile p = s ∧ text.dropWhile p = t ↔
      text = s ++ t ∧ (∀ c ∈ s, p c = true) ∧ ∀ c, t.head? = some c → p c = false := by
  constructor
  · rintro ⟨rfl, rfl⟩
    refine ⟨List.takeWhile_append_dropWhile.symm, fun c hc => List.mem_takeWhile_imp hc, ?_⟩
    intro c hc
    have hstop := List.head?_dropWhile_not p text
    rw [hc] at hstop
    simpa using hstop
  · rintro ⟨rfl, inside, stop⟩
    rw [List.takeWhile_append_of_pos inside, List.dropWhile_append_of_pos inside]
    cases t with
    | nil => simp
    | cons c t => simp [stop c rfl]

theorem mapError_eq_ok {f : ε → ε'} {x : Except ε α} {a : α} :
    x.mapError f = .ok a ↔ x = .ok a := by
  cases x <;> simp [Except.mapError]

theorem ClassName.read_inverts : Reader.Inverts ClassName.read ClassName.chars := by
  intro input name rest
  constructor
  · intro h
    cases input with
    | nil => simp [read] at h
    | cons c text =>
      have hrun : text.takeWhile insideName = text.takeWhile insideName ∧
        text.dropWhile insideName = text.dropWhile insideName := ⟨rfl, rfl⟩
      obtain ⟨hsplit, -, stop⟩ := takeWhile_dropWhile_iff.mp hrun
      simp only [read] at h
      split at h
      · simp at h
      · rename_i hstart
        split at h
        · simp at h
        · rename_i d left hleft
          simp only [Prod.mk.injEq, mapError_eq_ok, of_eq_ok] at h
          obtain ⟨hname, rfl⟩ := h
          have hc : c = 'L' := by simpa using hstart
          have hd : d = ';' := by simpa [hleft, insideName] using stop d
          rw [hsplit, hleft, hc, hd, chars, hname]
          simp
  · rintro rfl
    obtain ⟨htake, hdrop⟩ := takeWhile_dropWhile_iff (p := insideName) (t := ';' :: rest).mpr
      ⟨rfl, fun c hc => name.insideName_of_mem hc, by simp [insideName]⟩
    have hinput : name.chars ++ rest = 'L' :: (name.text.toList ++ ';' :: rest) := by simp [chars]
    have hname : ClassName.of (String.ofList name.text.toList) = .ok name := of_eq_ok.mpr (by simp)
    rw [hinput, read, if_neg (by simp)]
    simp only [htake, hdrop, hname]
    rfl

theorem Element.read_inverts : Reader.Inverts Element.read Element.chars := by
  intro input e rest
  unfold read
  split
  · rename_i hstart
    rw [Reader.map_eq_ok]
    cases e with
    | primitive p =>
      simp only [reduceCtorEq, and_false, exists_false, false_iff]
      rintro rfl
      exact p.code_ne_class (by simpa [chars, Primitive.chars] using hstart)
    | object name => simp [ClassName.read_inverts input, chars]
  · rename_i hstart
    rw [Reader.map_eq_ok]
    cases e with
    | primitive p => simp [Primitive.read_inverts input, chars]
    | object name =>
      simp only [reduceCtorEq, and_false, exists_false, false_iff]
      rintro rfl
      exact hstart rfl

theorem Element.not_isBracket_head (e : Element) (rest : List Char) :
    ∀ c, (e.chars ++ rest).head? = some c → isBracket c = false := by
  cases e with
  | primitive p => simp [chars, Primitive.chars, isBracket, p.code_ne_bracket]
  | object name => simp [chars, ClassName.chars, isBracket]

theorem brackets_iff {n : Nat} {e : Element} {text rest : List Char} :
    (text.takeWhile isBracket).length = n ∧ text.dropWhile isBracket = e.chars ++ rest ↔
      text = List.replicate n '[' ++ (e.chars ++ rest) := by
  have hall {s : List Char} (h : ∀ c ∈ s, isBracket c = true) : s = List.replicate s.length '[' :=
    List.eq_replicate_iff.mpr ⟨rfl, fun c hc => by simpa [isBracket] using h c hc⟩
  constructor
  · rintro ⟨rfl, hrest⟩
    obtain ⟨hsplit, hinside, -⟩ := takeWhile_dropWhile_iff.mp ⟨rfl, hrest⟩
    rw [← hall hinside]
    exact hsplit
  · intro htext
    have hinside : ∀ c ∈ List.replicate n '[', isBracket c = true := by simp [isBracket]
    obtain ⟨htake, hdrop⟩ := takeWhile_dropWhile_iff.mpr
      ⟨htext, hinside, e.not_isBracket_head rest⟩
    rw [htake, hdrop]
    simp

theorem RefType.start_of_append {r : RefType} {c : Char} {text rest : List Char}
    (h : c :: text = r.chars ++ rest) : c = 'L' ∨ c = '[' := by
  have hhead : some c = (r.chars ++ rest).head? := congrArg List.head? h
  rw [List.head?_append] at hhead
  obtain hr | hr := r.head_chars
  · exact .inl (by simpa [hr] using hhead)
  · exact .inr (by simpa [hr] using hhead)

theorem RefType.read_inverts : Reader.Inverts RefType.read RefType.chars := by
  intro input r rest
  unfold read
  split
  · cases r <;> simp [chars, ClassName.chars, List.replicate_succ]
  · rename_i text
    rw [Reader.map_eq_ok]
    cases r with
    | object name => simp [ClassName.read_inverts ('L' :: text), chars]
    | array additional element => simp [chars, List.replicate_succ]
  · rename_i text
    simp only [Reader.map_eq_ok, Element.read_inverts _ _ rest]
    cases r with
    | object name => simp [chars, ClassName.chars]
    | array additional element =>
      simp only [array.injEq, chars, List.replicate_succ, List.cons_append, List.cons.injEq, true_and,
        List.append_assoc, ← brackets_iff]
      constructor
      · rintro ⟨_, hrest, rfl, rfl⟩
        exact ⟨rfl, hrest⟩
      · rintro ⟨rfl, hrest⟩
        exact ⟨element, hrest, rfl, rfl⟩
  · rename_i c text hclass hbracket
    simp only [Prod.mk.injEq, reduceCtorEq, false_and, false_iff]
    intro h
    exact (start_of_append h).elim hclass hbracket

theorem ValueType.read_inverts : Reader.Inverts ValueType.read ValueType.chars := by
  intro input v rest
  unfold read
  split
  · cases v with
    | primitive p => simp [chars, Primitive.chars]
    | reference r => cases r <;> simp [chars, RefType.chars, ClassName.chars, List.replicate_succ]
  · rename_i c text
    split
    · rename_i hstart
      rw [Reader.map_eq_ok]
      cases v with
      | primitive p =>
        simp only [reduceCtorEq, and_false, exists_false, false_iff, chars, Primitive.chars,
          List.singleton_append, List.cons.injEq]
        rintro ⟨rfl, -⟩
        simp [p.code_ne_class, p.code_ne_bracket] at hstart
      | reference r => simp [RefType.read_inverts (c :: text), chars]
    · rename_i hstart
      have hreference (r : RefType) : ¬ c :: text = r.chars ++ rest := fun h =>
        hstart (by simpa using RefType.start_of_append h)
      split
      · rw [Reader.map_eq_ok]
        cases v with
        | primitive p => simp [Primitive.read_inverts (c :: text), chars]
        | reference r => simp [chars, hreference r]
      · rename_i hcode
        simp only [Prod.mk.injEq, reduceCtorEq, false_and, false_iff]
        cases v with
        | primitive p =>
          rintro h
          obtain ⟨rfl, -⟩ := List.cons.inj h
          simp [p.ofCode?_code] at hcode
        | reference r => exact hreference r

theorem ValueType.start_ne_void {v : ValueType} {c : Char} {text rest : List Char}
    (h : c :: text = v.chars ++ rest) : c ≠ 'V' := by
  rintro rfl
  cases v with
  | primitive p => exact p.code_ne_void (List.cons.inj h).1.symm
  | reference r => simpa using RefType.start_of_append h

theorem Ty.read_inverts : Reader.Inverts Ty.read Ty.chars := by
  intro input t rest
  unfold read
  split
  · cases t with
    | void => simp [chars, eq_comm]
    | value v =>
      simp only [Prod.mk.injEq, Except.ok.injEq, reduceCtorEq, false_and, false_iff, chars]
      exact fun h => ValueType.start_ne_void h rfl
  · rename_i hstart
    rw [Reader.map_eq_ok]
    cases t with
    | void =>
      simp only [reduceCtorEq, and_false, exists_false, false_iff]
      exact fun h => hstart rest h
    | value v => simp [ValueType.read_inverts input, chars]

/-- Two written forms at the front of one text are the same. -/
theorem Reader.Inverts.append_inj {read : Reader α} {write : α → List Char}
    (inverts : read.Inverts write) {a b : α} {rest rest' : List Char}
    (h : write a ++ rest = write b ++ rest') : a = b ∧ rest = rest' := by
  have ha := (inverts (write a ++ rest) a rest).mpr rfl
  have hb := (inverts (write a ++ rest) b rest').mpr h
  rw [ha] at hb
  simpa using hb

theorem Reader.Inverts.injective {read : Reader α} {write : α → List Char}
    (inverts : read.Inverts write) : Function.Injective write := by
  intro a b h
  have hchars : write a ++ [] = write b ++ [] := by rw [h]
  exact (inverts.append_inj hchars).1

theorem Ty.chars_injective {s t : Ty} (h : s.chars = t.chars) : s = t :=
  Ty.read_inverts.injective h

/-- A text is read as a value exactly if it is how the value is written; hence no two values are
written alike, no two texts are read alike, and what was read is written as it was. -/
structure RoundTrips (parse : String → Except DescriptorFault α) (render : α → String) : Prop where
  parse_iff : ∀ text a, parse text = .ok a ↔ render a = text
  render_injective : Function.Injective render
  parse_injective : ∀ text text' a, parse text = .ok a → parse text' = .ok a → text = text'
  render_parse : ∀ text a, parse text = .ok a → render a = text

theorem Reader.Inverts.roundTrips {read : Reader α} {write : α → List Char}
    (inverts : read.Inverts write) :
    RoundTrips read.parse fun a => String.ofList (write a) := by
  have hiff (text : String) (a : α) : read.parse text = .ok a ↔ String.ofList (write a) = text := by
    rw [Reader.parse_eq_ok, inverts, List.append_nil]
    constructor
    · intro h
      rw [← h, String.ofList_toList]
    · rintro rfl
      rw [String.toList_ofList]
  refine ⟨hiff, fun a b h => ?_, fun text text' a h h' => ?_, fun text a => (hiff text a).mp⟩
  · exact inverts.injective (String.ofList_injective h)
  · exact ((hiff text a).mp h).symm.trans ((hiff text' a).mp h')

theorem Ty.roundTrips : RoundTrips Ty.parse Ty.descriptor := Ty.read_inverts.roundTrips

/-- All descriptors, from single primitives to types, are read and written one to one. -/
theorem descriptors_roundTrip :
    RoundTrips (Reader.parse Primitive.read) (fun p => String.ofList p.chars) ∧
      RoundTrips (Reader.parse ClassName.read) (fun name => String.ofList name.chars) ∧
      RoundTrips (Reader.parse RefType.read) (fun r => String.ofList r.chars) ∧
      RoundTrips (Reader.parse ValueType.read) (fun v => String.ofList v.chars) ∧
      RoundTrips Ty.parse Ty.descriptor :=
  ⟨Primitive.read_inverts.roundTrips, ClassName.read_inverts.roundTrips,
    RefType.read_inverts.roundTrips, ValueType.read_inverts.roundTrips, Ty.roundTrips⟩

end Dalvik
