/-!
# Places in a text

A place is counted in three units at once: bytes of the text's UTF-8 form before it, lines, and
columns of its line in characters. Only a line feed ends a line; a carriage return, a tab and a
character of several bytes each take one column.

**Moving** (`Position.after`). Reading characters moves a place forward one character at a time,
so reading two texts in a row moves it as reading their concatenation does (`after_append`).
-/

namespace Guardedness

/-- A place in a text. -/
structure Position where
  /-- Bytes before the place. -/
  offset : Nat
  /-- Line, counted from 1. -/
  line : Nat
  /-- Column in characters, counted from 1. -/
  column : Nat
deriving DecidableEq, Repr

/-- A stretch of text: the bytes from `start` to before `stop`, and the line and column of its
first character. -/
structure Span where
  start : Nat
  stop : Nat
  line : Nat
  column : Nat
deriving DecidableEq, Repr

namespace Position

/-- The place before the first character. -/
def start : Position := ⟨0, 1, 1⟩

/-- The place after reading `c`. -/
def next (p : Position) (c : Char) : Position :=
  if c = '\n' then ⟨p.offset + c.utf8Size, p.line + 1, 1⟩
  else ⟨p.offset + c.utf8Size, p.line, p.column + 1⟩

/-- The place after reading `cs`. -/
def after (p : Position) (cs : List Char) : Position := cs.foldl next p

@[simp] theorem after_nil (p : Position) : p.after [] = p := rfl

@[simp] theorem after_cons (p : Position) (c : Char) (cs : List Char) :
    p.after (c :: cs) = (p.next c).after cs := rfl

theorem after_append (p : Position) (cs ds : List Char) :
    p.after (cs ++ ds) = (p.after cs).after ds := List.foldl_append

/-- The stretch of text between two places. -/
def spanTo (p q : Position) : Span := ⟨p.offset, q.offset, p.line, p.column⟩

/-- How a place is named to the user. -/
def describe (line column : Nat) : String := s!"line {line}, column {column}"

end Position

def Span.describe (s : Span) : String := Position.describe s.line s.column

/-- The span of what was not read from any text. -/
def Span.none : Span := ⟨0, 0, 1, 1⟩

end Guardedness
