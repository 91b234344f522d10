import Dalvik.Member.Basic
import Dalvik.Proofs.RoundTrip

/-! Prototypes tell methods apart. Nothing stands between the descriptors of the parameters, and class
names may hold parentheses, but each descriptor shows where it ends; so a prototype can be taken apart in
one way only. The text of a member can too, if its name does not hold the character that ends it. -/
namespace Dalvik

theorem Ty.chars_append_ne (t : Ty) (rest rest' : List Char) : t.chars ++ rest ≠ ')' :: rest' := by
  intro h
  have hread := (Ty.read_inverts (')' :: rest') t rest).mpr h.symm
  have hrefused : Ty.read (')' :: rest') = (.error (.invalidValue ')'), ')' :: rest') := rfl
  rw [hrefused] at hread
  cases hread

theorem parameters_inj {ps qs : List Ty} {rest rest' : List Char}
    (h : ps.flatMap Ty.chars ++ ')' :: rest = qs.flatMap Ty.chars ++ ')' :: rest') :
    ps = qs ∧ rest = rest' := by
  -- over both lists at once: their first types are one, as far as there are any
  induction ps generalizing qs with
  | nil =>
    cases qs with
    | nil => exact ⟨rfl, (List.cons.inj h).2⟩
    | cons q qs =>
      rw [List.flatMap_cons, List.append_assoc] at h
      exact absurd h.symm (q.chars_append_ne _ rest)
  | cons p ps ih =>
    rw [List.flatMap_cons, List.append_assoc] at h
    cases qs with
    | nil => exact absurd h (p.chars_append_ne _ rest')
    | cons q qs =>
      rw [List.flatMap_cons, List.append_assoc] at h
      obtain ⟨rfl, hothers⟩ := Ty.read_inverts.append_inj h
      obtain ⟨rfl, hrest⟩ := ih hothers
      exact ⟨rfl, hrest⟩

namespace MethodId

variable {m m' : MethodId}

theorem descriptor_eq_iff :
    m.descriptor = m'.descriptor ↔ m.parameters = m'.parameters ∧ m.returns = m'.returns := by
  constructor
  · intro h
    have hchars : m.prototypeChars = m'.prototypeChars := String.ofList_injective h
    obtain ⟨hparameters, hreturns⟩ := parameters_inj (List.cons.inj hchars).2
    exact ⟨hparameters, Ty.chars_injective hreturns⟩
  · rintro ⟨hparameters, hreturns⟩
    rw [descriptor, descriptor, prototypeChars, prototypeChars, hparameters, hreturns]

structure Overloads (m m' : MethodId) : Prop where
  owner : m.owner = m'.owner
  name : m.name = m'.name
  differ : m ≠ m'

/-- The prototype stands for the types of a method, so with owner and name it stands for the method. -/
theorem prototype_identifies (m m' : MethodId) :
    (m.descriptor = m'.descriptor ↔ m.parameters = m'.parameters ∧ m.returns = m'.returns) ∧
      (m.owner = m'.owner ∧ m.name = m'.name ∧ m.descriptor = m'.descriptor ↔ m = m') ∧
      (m.Overloads m' → m.descriptor ≠ m'.descriptor) := by
  have hsame : m.owner = m'.owner ∧ m.name = m'.name ∧ m.descriptor = m'.descriptor ↔ m = m' := by
    rw [descriptor_eq_iff]
    constructor
    · rintro ⟨howner, hname, hparameters, hreturns⟩
      cases m
      cases m'
      simp_all
    · rintro rfl
      exact ⟨rfl, rfl, rfl, rfl⟩
  refine ⟨descriptor_eq_iff, hsame, fun overloads hdescriptor => ?_⟩
  exact overloads.differ (hsame.mp ⟨overloads.owner, overloads.name, hdescriptor⟩)

end MethodId

theorem MemberName.text_injective : Function.Injective MemberName.text := by
  rintro ⟨s, hs⟩ ⟨t, ht⟩ h
  obtain rfl : s = t := h
  rfl

/-- The name holds neither of the characters that stand behind a name. -/
def MemberName.IsPlain (name : MemberName) : Prop := ∀ c ∈ name.text.toList, c ≠ ':' ∧ c ≠ '('

namespace Member

def owner : Member → Ty
  | field f => f.owner
  | method m => m.owner

def name : Member → MemberName
  | field f => f.name
  | method m => m.name

/-- What stands behind the name: the type of a field, the parameters and the result of a method. -/
def signature : Member → List Char
  | field f => ':' :: f.type.chars
  | method m => '(' :: (m.parameters.flatMap Ty.chars ++ ')' :: m.returns.chars)

def ReadAs (m : Member) (text : String) : Prop :=
  text.toList = m.owner.chars ++ '.' :: (m.name.text.toList ++ m.signature)

variable {m m' : Member}

theorem readAs_text (m : Member) : m.ReadAs m.text := by
  cases m with
  | field f => simp [ReadAs, text, FieldId.text, Ty.descriptor, owner, name, signature]
  | method m =>
    simp [ReadAs, text, MethodId.text, MethodId.descriptor, MethodId.prototypeChars, Ty.descriptor, owner,
      name, signature]

theorem eq_of_signature (howner : m.owner = m'.owner) (hname : m.name = m'.name)
    (h : m.signature = m'.signature) : m = m' := by
  cases m with
  | field f =>
    cases m' with
    | field f' =>
      have htype := Ty.chars_injective (List.cons.inj h).2
      cases f
      cases f'
      simp_all [owner, name]
    | method m' => cases (List.cons.inj h).1
  | method m =>
    cases m' with
    | field f' => cases (List.cons.inj h).1
    | method m' =>
      obtain ⟨hparameters, hreturns⟩ := parameters_inj (List.cons.inj h).2
      have hreturns := Ty.chars_injective hreturns
      cases m
      cases m'
      simp_all [owner, name]

theorem splits (plain : m.name.IsPlain) :
    (m.name.text.toList ++ m.signature).takeWhile (fun c => c != ':' && c != '(') = m.name.text.toList ∧
      (m.name.text.toList ++ m.signature).dropWhile (fun c => c != ':' && c != '(') = m.signature := by
  rw [takeWhile_dropWhile_iff]
  refine ⟨rfl, fun c hc => by simpa using plain c hc, fun c hc => ?_⟩
  cases m <;> cases Option.some.inj hc <;> rfl

theorem ReadAs.eq {text : String} (h : m.ReadAs text) (h' : m'.ReadAs text) (plain : m.name.IsPlain)
    (plain' : m'.name.IsPlain) : m = m' := by
  obtain ⟨howner, hrest⟩ := Ty.read_inverts.append_inj (h.symm.trans h')
  have hsplits := splits plain
  rw [(List.cons.inj hrest).2, (splits plain').1, (splits plain').2] at hsplits
  have hname := MemberName.text_injective (String.toList_injective hsplits.1)
  exact eq_of_signature howner hname.symm hsplits.2.symm

end Member

-- without the side condition it fails: the colon may belong to the name or to the type
example : (Member.field ⟨.root, ⟨"a", by decide⟩, .object ⟨"x:Lb", by decide⟩⟩).text =
    (Member.field ⟨.root, ⟨"a:Lx", by decide⟩, .object ⟨"b", by decide⟩⟩).text := by decide

end Dalvik
