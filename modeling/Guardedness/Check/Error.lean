import Guardedness.Proc

/-!
# Failures of a check

A check can fail without an answer when a task below a node ended and left no answer, or when
a node lacks a child that its kind has. The nodes of a `Proc` are built together with their
children, so the second never happens to one; a check looks for the children of a node all the
same (`Proc.child`).
-/

namespace Guardedness

/-- Why a check has no answer. -/
inductive CheckError where
  | taskLost (kind : Node.Kind)
  | childMissing (kind : Node.Kind) (side : Side)
deriving DecidableEq, Repr

def CheckError.message : CheckError → String
  | taskLost kind =>
    s!"a task spawned below a {kind.describe} node ended without delivering its result"
  | childMissing kind side => s!"{kind.describe} node has no {side.describe} child"

namespace Proc

/-- What a check answers. -/
abbrev Answer := Except CheckError Bool

/-- The child that the kind of a node has on a side. -/
def child (p : Proc) (side : Side) : Except CheckError Proc :=
  match p.child? side with
  | some q => .ok q
  | none => .error (.childMissing p.kind side)

end Proc

end Guardedness
