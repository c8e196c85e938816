import TreeWalk.Text.Unprintable

/-! # Quoted text

Listings write names between double quotes. Inside them the quote and the backslash are escaped, the
common controls have short escapes, and every other unprintable character is written by its code
point, so that a listing shows every character of a name.
-/

namespace TreeWalk.Text

def quotedChar (c : Char) : String :=
  if c = '"' then "\\\""
  else if c = '\\' then "\\\\"
  else if c = '\n' then "\\n"
  else if c = '\r' then "\\r"
  else if c = '\t' then "\\t"
  else if c = '\x00' then "\\0"
  else if ' ' ≤ c && c ≤ '~' then c.toString
  else if isUnprintable c then "\\u\x7b" ++ String.ofList (Nat.toDigits 16 c.toNat) ++ "\x7d"
  else c.toString

def quoted (s : String) : String := "\"" ++ String.join (s.toList.map quotedChar) ++ "\""

def listed (items : List String) : String :=
  "[" ++ ", ".intercalate items ++ "]"

end TreeWalk.Text
