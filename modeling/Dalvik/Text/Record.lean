/-! How a structured value is shown on one line: as its name, as `Name(value)`, or as the name with
its fields in braces. -/
namespace Dalvik.Text

def commaList (items : List String) : String := ", ".intercalate items

/-- A constructor with one unnamed part. -/
def tagged (name value : String) : String := name ++ "(" ++ value ++ ")"

/-- A constructor with named parts, in the order given. -/
def record (name : String) (fields : List (String × String)) : String :=
  name ++ " \x7b " ++ commaList (fields.map fun field => field.1 ++ ": " ++ field.2) ++ " \x7d"

def bracketed (items : List String) : String := "[" ++ commaList items ++ "]"

def optional : Option String → String
  | none => "None"
  | some value => tagged "Some" value

end Dalvik.Text
