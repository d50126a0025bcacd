import Guardedness.Text.Hidden

/-!
# Quoted text

A message quotes text between double quotes. A quote, a backslash and the usual controls are
written with a backslash and a letter, and a character that does not show is written by its
number, as in `\u{200b}`.
-/

namespace Guardedness

namespace Text

/-- A character as it is written between quotes. -/
def quoteChar (c : Char) : String :=
  if c = '"' then "\\\""
  else if c = '\\' then "\\\\"
  else if c = '\n' then "\\n"
  else if c = '\r' then "\\r"
  else if c = '\t' then "\\t"
  else if c = '\x00' then "\\0"
  else if isHidden c then "\\u\x7b" ++ String.ofList (Nat.toDigits 16 c.toNat) ++ "\x7d"
  else c.toString

/-- A text between quotes. -/
def quote (s : String) : String := s.toList.foldl (fun acc c => acc ++ quoteChar c) "\"" ++ "\""

end Text

end Guardedness
