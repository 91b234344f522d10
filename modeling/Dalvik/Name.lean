/-! Names of members and classes. A name carries the proof that the format admits it, so no later
step has to look at its characters again. -/
namespace Dalvik

/-- Why a text is no name. -/
inductive NameFault where
  | illegalCharacter (name : String)
  | emptyMember
  | strayBrackets (name : String)
  | emptyClass
  | bracketsInClass (name : String)
  deriving DecidableEq

def NameFault.message : NameFault → String
  | illegalCharacter name => "Unqualified name '" ++ name ++ "' contains an illegal character"
  | emptyMember => "Unqualified name '' is empty"
  | strayBrackets name =>
    "Only '<init>' and '<clinit>' may contain angle brackets, not '" ++ name ++ "'"
  | emptyClass => "Binary name '' is empty"
  | bracketsInClass name => "Binary name '" ++ name ++ "' contains angle brackets"

/-- Characters with a meaning of their own in descriptors and qualified names. -/
def isSeparator (c : Char) : Bool := c == '.' || c == ';' || c == '[' || c == '/'

def isAngleBracket (c : Char) : Bool := c == '<' || c == '>'

/-- The two members that the machine itself calls. -/
def initializerText : List Char := ['<', 'i', 'n', 'i', 't', '>']
def classInitializerText : List Char := ['<', 'c', 'l', 'i', 'n', 'i', 't', '>']

/-- Separators are reported before an empty name, and that before angle brackets. -/
def memberFault? (text : List Char) : Option NameFault :=
  if text.any isSeparator then some (.illegalCharacter (String.ofList text))
  else if text.isEmpty then some .emptyMember
  else if text.any isAngleBracket && text != initializerText && text != classInitializerText then
    some (.strayBrackets (String.ofList text))
  else none

/-- Puts a character in front of the first part, or starts a new part at a slash. -/
def prependChar (c : Char) (parts : List (List Char)) : List (List Char) :=
  if c = '/' then [] :: parts
  else match parts with
    | [] => [[c]]
    | first :: others => (c :: first) :: others

/-- The parts of a text between its slashes; there is always at least one. -/
def segments (text : List Char) : List (List Char) := text.foldr prependChar [[]]

/-- A class name is a path of member names without angle brackets. -/
def classFault? (text : List Char) : Option NameFault :=
  if text.isEmpty then some .emptyClass
  else if text.any isAngleBracket then some (.bracketsInClass (String.ofList text))
  else (segments text).findSome? memberFault?

/-- The name of a field or method. -/
structure MemberName where
  text : String
  valid : memberFault? text.toList = none
  deriving DecidableEq

/-- The full name of a class, its packages divided by slashes. -/
structure ClassName where
  text : String
  valid : classFault? text.toList = none
  deriving DecidableEq

def MemberName.of (text : String) : Except NameFault MemberName :=
  match h : memberFault? text.toList with
  | none => .ok ⟨text, h⟩
  | some fault => .error fault

def ClassName.of (text : String) : Except NameFault ClassName :=
  match h : classFault? text.toList with
  | none => .ok ⟨text, h⟩
  | some fault => .error fault

def MemberName.initializer : MemberName := ⟨"<init>", by decide⟩
def MemberName.classInitializer : MemberName := ⟨"<clinit>", by decide⟩

def ClassName.object : ClassName := ⟨"java/lang/Object", by decide⟩
def ClassName.string : ClassName := ⟨"java/lang/String", by decide⟩
def ClassName.throwable : ClassName := ⟨"java/lang/Throwable", by decide⟩

end Dalvik
