import Guardedness.SyntaxTree

/-!
# Processes

A process is a term over bare names, which is all that a check looks at. It comes from a syntax
tree by forgetting where the names stood (`SyntaxTree.proc`).

Each node of a process has a *kind* and a name, which is empty where the kind has none, and up to
two children: the only child of a node counts as its left one.

The text of a process puts no parentheses around greedy operands. It is for people to read, and
reading it back may give a different term.
-/

namespace Guardedness

/-- A term over bare names. -/
abbrev Proc := Term String

/-- The two sides of a node. -/
inductive Side where
  | left
  | right
deriving DecidableEq, Repr

/-- How a side is named to the user. -/
def Side.describe : Side → String
  | left => "left"
  | right => "right"

namespace Node

/-- The kinds of node. -/
inductive Kind where
  | nil
  | var
  | act
  | sum
  | par
  | res
  | rel
  | fix
deriving DecidableEq, Repr

namespace Kind

/-- All kinds. -/
def all : List Kind := [nil, var, act, sum, par, res, rel, fix]

def describe : Kind → String
  | nil => "nil"
  | var => "variable"
  | act => "prefix"
  | sum => "sum"
  | par => "composition"
  | res => "restriction"
  | rel => "relabeling"
  | fix => "recursion"

end Kind

universe u

/-- The kind of a node. -/
def kind {ν : Type u} : Node ν → Kind
  | nil => .nil
  | var _ => .var
  | act _ => .act
  | fix _ => .fix
  | par => .par
  | sum => .sum
  | res _ => .res
  | rel _ => .rel

/-- The name at a node, if its kind has one. -/
def name? {ν : Type u} : Node ν → Option ν
  | nil | par | sum => none
  | var x | act x | fix x | res x | rel x => some x

def arity {ν : Type u} : Node ν → Nat
  | nil | var _ => 0
  | act _ | fix _ | res _ | rel _ => 1
  | par | sum => 2

theorem arity_node {ν : Type u} (t : Term ν) : t.node.arity = t.children.length := by
  cases t <;> rfl

end Node

namespace Proc

/-- The kind of the root. -/
def kind (p : Proc) : Node.Kind := p.node.kind

/-- The name at the root, empty if there is none. -/
def name (p : Proc) : String := p.node.name?.getD ""

/-- The child on a side. -/
def child? (p : Proc) : Side → Option Proc
  | .left => p.children[0]?
  | .right => p.children[1]?

/-- Processes are written plainly. -/
def style : Term.Style String := ⟨id, false⟩

def render (p : Proc) : String := Term.render style p

end Proc

/-- The process a tree stands for. -/
def SyntaxTree.proc (t : SyntaxTree) : Proc := Term.map Ident.name t

end Guardedness
