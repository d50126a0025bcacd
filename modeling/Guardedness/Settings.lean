/-!
# Settings

Settings say whether a text must end with the term it holds, how a term is checked, and whether
a check is hasty: whether a node with an unguarded branch answers before its other branch does.
What is not set keeps its default: a text may go on after its term, a term is checked by tasks,
and no check is hasty.
-/

namespace Guardedness

/-- The ways to check a term. -/
inductive Strategy where
  | tasks
  | joining
  | worklist
deriving DecidableEq, Repr, Inhabited

namespace Strategy

/-- All ways, in the order in which messages list them. -/
def all : List Strategy := [tasks, joining, worklist]

/-- The word for a way in a settings text. -/
def word : Strategy → String
  | tasks => "concurrent"
  | joining => "inline"
  | worklist => "sequential"

end Strategy

/-- How a text is read. -/
structure ReadSettings where
  /-- Whether the text must end with the term. -/
  toEnd : Bool := false
deriving DecidableEq, Repr, Inhabited

/-- How a term is checked. -/
structure CheckSettings where
  strategy : Strategy := .tasks
  hasty : Bool := false
deriving DecidableEq, Repr, Inhabited

structure Settings where
  read : ReadSettings := {}
  check : CheckSettings := {}
deriving DecidableEq, Repr, Inhabited

end Guardedness
