import Guardedness.Check.Error
import Guardedness.Check.Guarded

/-!
# Checking by a worklist

The list holds nodes still to be looked at, each with the names exposed at it. Looking at a node
either finds an exposed variable, which ends the check, or puts the children in the node's
place, the left one first. The check succeeds when the list runs empty.

**Ending.** Each look takes one node off the total that the list holds (`Item.look_weight`).
-/

namespace Guardedness

namespace Worklist

/-- A node to be looked at, and the names exposed at it. -/
structure Item where
  node : Proc
  exposed : NameSet

namespace Item

/-- Look at a node: nothing if it is an exposed variable, otherwise its children. -/
def look (i : Item) : Except CheckError (Option (List Item)) :=
  match i.node.kind with
  | .nil => .ok (some [])
  | .var => .ok (if i.exposed.contains i.node.name then none else some [])
  | .act => do return some [⟨← i.node.child .left, ∅⟩]
  | .res | .rel => do return some [⟨← i.node.child .left, i.exposed⟩]
  | .fix => do return some [⟨← i.node.child .left, i.exposed.insert i.node.name⟩]
  | .sum | .par => do
    let right ← i.node.child .right
    let left ← i.node.child .left
    return some [⟨left, i.exposed⟩, ⟨right, i.exposed⟩]

def below (i : Item) : List Item := i.node.children.map (⟨·, i.node.exposedBelow i.exposed⟩)

/-- No look fails, and one that goes on puts the children in the node's place. -/
theorem look_eq (i : Item) :
    i.look = .ok (match i.node with
      | .var x => if i.exposed.contains x then none else some []
      | _ => some i.below) := by
  obtain ⟨p, exposed⟩ := i
  cases p <;> rfl

/-- The number of nodes an item stands for. -/
def weight (i : Item) : Nat := i.node.weight

end Item

/-- The number of nodes a worklist stands for. -/
def weight (items : List Item) : Nat := total (items.map Item.weight)

theorem weight_below (i : Item) : weight i.below + 1 = i.weight := by
  simp [weight, Item.below, Item.weight, Term.weight_eq i.node, Term.totalWeight,
    Function.comp_def]

theorem Item.look_weight {i : Item} {below : List Item} (h : i.look = .ok (some below)) :
    Worklist.weight below + 1 = i.weight := by
  rw [look_eq] at h
  split at h
  · next x hx =>
    split at h
    · cases h
    · cases h; simp [Worklist.weight, Item.weight, hx, Term.weight]
  · cases h; exact weight_below i

/-- Look at items until none is left or one is refused. -/
def run : List Item → Proc.Answer
  | [] => .ok true
  | i :: pending =>
    match _h : i.look with
    | .error e => .error e
    | .ok none => .ok false
    | .ok (some below) => run (below ++ pending)
termination_by pending => weight pending
decreasing_by
  have := Item.look_weight ‹_›
  simp [weight] at this ⊢
  omega

end Worklist

namespace Proc

/-- The answer of a check by a worklist. -/
def checkByWorklist (exposed : NameSet) (p : Proc) : Answer := Worklist.run [⟨p, exposed⟩]

end Proc

end Guardedness
