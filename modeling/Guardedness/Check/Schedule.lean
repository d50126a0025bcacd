import Guardedness.Proc

/-!
# Schedules

A check that looks at both branches of a node at once can take their answers in either order,
and tasks that run side by side can interleave in many ways. A schedule settles all of these
choices, so that a check under a schedule is a function. No answer depends on it.
-/

namespace Guardedness

/-- The way from a node up to the root of the term, the last turn first; an only child is a
left one. -/
abbrev Place := List Side

/-- The choices that the course of a check is open to. -/
structure Schedule where
  /-- The branch that answers first, at each node with two children. -/
  first : Place → Side
  /-- The place on the agenda of the event that happens next, counted round the agenda; the
  argument tells the events apart. -/
  pick : Nat → Nat

/-- Left branches answer first, and the agenda is taken from its front. -/
instance : Inhabited Schedule := ⟨fun _ => .left, fun _ => 0⟩

end Guardedness
