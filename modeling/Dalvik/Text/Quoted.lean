import Dalvik.Text.Unprintable

/-! Quoted text: a string between double quotes, every character of it visible. Only `encode`
decides how a character is written. -/
namespace Dalvik.Text

/-- Lower-case hexadecimal digits, without padding. -/
def hexDigits (n : Nat) : List Char := Nat.toDigits 16 n

/-- A quote or backslash takes a backslash, four controls have a letter, and an unprintable
character is written by its code point. -/
def encodeChar (c : Char) : List Char :=
  if c = '\x00' then ['\\', '0']
  else if c = '\t' then ['\\', 't']
  else if c = '\r' then ['\\', 'r']
  else if c = '\n' then ['\\', 'n']
  else if c = '"' then ['\\', '"']
  else if c = '\\' then ['\\', '\\']
  else if isUnprintable c then ['\\', 'u', '\x7b'] ++ hexDigits c.toNat ++ ['\x7d']
  else [c]

def encode (text : List Char) : List Char :=
  '"' :: text.flatMap encodeChar ++ ['"']

def quoted (text : String) : String := String.ofList (encode text.toList)

end Dalvik.Text
