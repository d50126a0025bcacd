import Guardedness.Check.Error
import Guardedness.Check.Guarded

/-!
# What a node needs

A check of a node starts from its kind. A leaf has its answer at once. Every other node needs the
answers of the children that its kind has, each under the names exposed below the node
(`Proc.need`). A node that lacks one of them fails the check.

The kind alone says what the name of a node means and which children it has. The children that a
node needs are smaller than the node (`weight_of_need_only`, `weight_of_need_both`).
-/

namespace Guardedness

namespace Proc

/-- What a node needs before it can answer. -/
inductive Need where
  | nothing (answer : Answer)
  | only (exposed : NameSet) (p : Proc)
  | both (exposed : NameSet) (p q : Proc)

def needOnly (exposed : NameSet) (p : Proc) : Need :=
  match p.child .left with
  | .ok q => .only exposed q
  | .error e => .nothing (.error e)

def needBoth (exposed : NameSet) (p : Proc) : Need :=
  match p.child .left, p.child .right with
  | .ok q, .ok r => .both exposed q r
  | .ok _, .error e => .nothing (.error e)
  | .error e, _ => .nothing (.error e)

/-- What a node needs, if `exposed` are exposed at it. -/
def need (exposed : NameSet) (p : Proc) : Need :=
  match p.kind with
  | .nil => .nothing (.ok true)
  | .var => .nothing (.ok (!exposed.contains p.name))
  | .act => p.needOnly ∅
  | .res | .rel => p.needOnly exposed
  | .fix => p.needOnly (exposed.insert p.name)
  | .sum | .par => p.needBoth exposed

variable {exposed below : NameSet} {p q r : Proc}

theorem weight_of_need_only (h : p.need exposed = .only below q) : q.weight + 1 = p.weight := by
  cases p <;> cases h <;> rfl

theorem weight_of_need_both (h : p.need exposed = .both below q r) :
    q.weight + r.weight + 1 = p.weight := by
  cases p <;> cases h <;> rfl

end Proc

end Guardedness
