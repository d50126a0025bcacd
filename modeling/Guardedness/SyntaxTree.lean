import Guardedness.Term.Render
import Guardedness.Token

/-!
# Syntax trees

A syntax tree is a term as it was written: each of its names remembers where it stood. Where
a name stood matters for messages only, so two identifiers are equal when their names are, and
two trees are equal when they differ in nothing but the places of their names.

The text of a tree puts parentheses around every greedy operand, so that reading the text gives
the tree back.
-/

namespace Guardedness

/-- A name and where it stands. -/
structure Ident where
  name : String
  span : Span
deriving Repr

namespace Ident

/-- A name that was not read from any text. -/
def ofName (name : String) : Ident := ⟨name, .none⟩

/-- The name a token spells. -/
def ofToken (t : Token) : Ident := ⟨t.literal, t.span⟩

/-- Places do not count. -/
instance : BEq Ident := ⟨fun a b => a.name == b.name⟩

@[simp] theorem beq_iff {a b : Ident} : (a == b) = true ↔ a.name = b.name := by
  show (a.name == b.name) = true ↔ _
  simp

end Ident

/-- A term as it was written. -/
abbrev SyntaxTree := Term Ident

namespace SyntaxTree

/-- Trees are written so that they read back. -/
def style : Term.Style Ident := ⟨Ident.name, true⟩

def render (t : SyntaxTree) : String := Term.render style t

end SyntaxTree

end Guardedness
