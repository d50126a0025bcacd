import Guardedness.Token

/-!
# Why a text is no term

A text is refused at one of its tokens: something else was expected there, or the token is
illegal, or it is a dot that no single name stands before, or it stands after a complete term.
Every message but the one for the end of the text says where that token is.
-/

namespace Guardedness

/-- What may be missing from a term. -/
inductive Expected where
  | term
  | parenClose
  | recName
  | recDot
  | resName
  | relName
  | bracketClose
deriving DecidableEq, Repr

/-- How what is missing is named to the user. -/
def Expected.describe : Expected → String
  | term => "process"
  | parenClose => "')' after expression"
  | recName => "identifier after 'rec'"
  | recDot => "'.' after identifier"
  | resName => "identifier after '\\'"
  | relName => "identifier after '['"
  | bracketClose => "']' after identifier"

/-- Why a text is no term. -/
inductive ParseError where
  | unexpected (expected : Expected) (found : Token)
  | endOfInput (expected : Expected)
  | illegal (found : Token)
  | dotAfterTerm (dot : Token)
  | trailing (found : Token)
deriving DecidableEq, Repr

namespace ParseError

def message : ParseError → String
  | unexpected e t => s!"expected {e.describe}, found '{t.literal}' at {t.span.describe}"
  | endOfInput e => s!"expected {e.describe}, found end of input"
  | illegal t => s!"illegal character '{t.literal}' at {t.span.describe}"
  | dotAfterTerm t => s!"prefixes must be identifiers ('.' at {t.span.describe})"
  | trailing t => s!"unexpected '{t.literal}' after the end of the process at {t.span.describe}"

end ParseError

end Guardedness
