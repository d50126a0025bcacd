import Guardedness.Position

/-!
# Tokens

A term is written with words and punctuation. A word is a run of ASCII letters; two words,
`nil` and `rec`, are reserved and every other one is an identifier. Each of the eight
punctuation characters is a token of its own kind. A character that is none of these and no
blank is an illegal token by itself, and the end of the text is a token with an empty literal.
-/

namespace Guardedness

/-- The reserved words. -/
inductive Keyword where
  | nilWord
  | recWord
deriving DecidableEq, Repr

namespace Keyword

/-- All reserved words, in the order of their numbering. -/
def all : List Keyword := [nilWord, recWord]

/-- The word itself. -/
def text : Keyword → String
  | nilWord => "nil"
  | recWord => "rec"

/-- The reserved word spelled exactly `w`: letter case and length count. -/
def ofText? (w : String) : Option Keyword := all.find? (·.text == w)

def index : Keyword → Nat
  | nilWord => 0
  | recWord => 1

end Keyword

namespace Token

/-- What a token is. -/
inductive Kind where
  | endOfInput
  | illegal
  | identifier
  | pipe
  | plus
  | backslash
  | bracketOpen
  | bracketClose
  | dot
  | parenOpen
  | parenClose
  | keyword (k : Keyword)
deriving DecidableEq, Repr

namespace Kind

def describe : Kind → String
  | endOfInput => "end of input"
  | illegal => "illegal character"
  | identifier => "identifier"
  | pipe => "'|'"
  | plus => "'+'"
  | backslash => "'\\'"
  | bracketOpen => "'['"
  | bracketClose => "']'"
  | dot => "'.'"
  | parenOpen => "'('"
  | parenClose => "')'"
  | keyword k => "'" ++ k.text ++ "'"

/-- The kind of a whole word. -/
def ofWord (w : String) : Kind :=
  match Keyword.ofText? w with
  | some k => keyword k
  | none => identifier

/-- The kind of a punctuation character. -/
def ofSymbol? : Char → Option Kind
  | '|' => some pipe
  | '+' => some plus
  | '\\' => some backslash
  | '[' => some bracketOpen
  | ']' => some bracketClose
  | '.' => some dot
  | '(' => some parenOpen
  | ')' => some parenClose
  | _ => none

end Kind

end Token

/-- A token: its kind, the text it was read from, and where that text stands. -/
structure Token where
  kind : Token.Kind
  literal : String
  span : Span
deriving DecidableEq, Repr

/-- The characters that separate tokens. -/
def isBlank (c : Char) : Bool := c == ' ' || c == '\t' || c == '\r' || c == '\n'

namespace Scan

/-! ## Reading the front of a text -/

/-- The run of blanks a text starts with, and the rest. -/
def blanks (cs : List Char) : List Char × List Char := (cs.takeWhile isBlank, cs.dropWhile isBlank)

/-- The run of ASCII letters a text starts with, and the rest. -/
def word? (cs : List Char) : Option (List Char × List Char) :=
  match cs.takeWhile Char.isAlpha with
  | [] => none
  | w => some (w, cs.dropWhile Char.isAlpha)

/-- The punctuation character a text starts with, as its kind, and the rest. -/
def symbol? : List Char → Option (Token.Kind × List Char)
  | [] => none
  | c :: cs => (Token.Kind.ofSymbol? c).map (·, cs)

theorem word?_length_pos {cs w rest : List Char} (h : word? cs = some (w, rest)) :
    0 < w.length := by
  unfold word? at h
  split at h
  · simp at h
  · next hne =>
    obtain ⟨rfl, -⟩ := by simpa using h
    exact List.length_pos_iff.mpr hne

end Scan

end Guardedness
