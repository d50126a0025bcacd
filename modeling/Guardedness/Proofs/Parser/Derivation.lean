import Guardedness.Proofs.Parser.Grammar
import Guardedness.SyntaxTree

/-!
# The grammar of greedy reading

The grammar of sentences leaves open which operator belongs to which term. This one does not:

    derivation := closed | open

    closed := 'nil' | 'rec' name '.' closed

    open := 'rec' name '.' open
          | name tail
          | name '.' closed tail
          | name '.' open
          | '(' derivation ')' tail

    tail := empty
          | '\' name tail | '[' name ']' tail
          | ('+' | '|') closed tail
          | ('+' | '|') open

What comes after `nil` cannot belong to it, nor to the recursions that end there: such a term is
*closed*. Every other term is *open*, and takes all operators that follow it. So an operator with an
open operand is the last one of its tail, and after a closed operand the tail goes on, with all that
is left of it as one operand (`Tail.apply`).

**No ambiguity** (`Derivation.yield_inj`). For the induction derivations have to be compared in
front of whatever follows them. A closed term may be followed by anything (`Closed.unique`), an open
one and a tail only by what begins with no operator (`Open.unique`, `Tail.unique`).
-/

namespace Guardedness

universe u

/-- What a term is written with: names, and tokens that are none. -/
inductive Terminal (ν : Type u) where
  | name (x : ν)
  | mark (k : Token.Kind)
deriving DecidableEq

/-- A token, with its place if it is a name. -/
def Token.terminal (t : Token) : Terminal Ident :=
  if t.kind = .identifier then .name (.ofToken t) else .mark t.kind

/-- Whether a terminal can follow a term. -/
def Terminal.isOperator {ν : Type u} : Terminal ν → Bool
  | name _ => false
  | mark k => Grammar.isOperator k

namespace Grammar

variable {ν : Type u}

/-- Terms that no operator can follow. -/
inductive Closed (ν : Type u) where
  | nil
  | fix (x : ν) (c : Closed ν)
deriving DecidableEq

mutual

/-- Terms that take all operators behind them. -/
inductive Open (ν : Type u) where
  | fix (x : ν) (o : Open ν)
  | var (x : ν) (v : Tail ν)
  | actClosed (a : ν) (c : Closed ν) (v : Tail ν)
  | actOpen (a : ν) (o : Open ν)
  | paren (d : Derivation ν) (v : Tail ν)

/-- The operators behind a term. -/
inductive Tail (ν : Type u) where
  | nil
  | res (a : ν) (v : Tail ν)
  | rel (f : ν) (v : Tail ν)
  | infixClosed (op : Infix) (c : Closed ν) (v : Tail ν)
  | infixOpen (op : Infix) (o : Open ν)

/-- Terms of both kinds. -/
inductive Derivation (ν : Type u) where
  | ofClosed (c : Closed ν)
  | ofOpen (o : Open ν)

end

/-! ## Yields and trees -/

/-- What a closed term is written as. -/
def Closed.yield : Closed ν → List (Terminal ν)
  | nil => [.mark (.keyword .nilWord)]
  | fix x c => .mark (.keyword .recWord) :: .name x :: .mark .dot :: c.yield

def Closed.tree : Closed ν → Term ν
  | nil => .nil
  | fix x c => .fix x c.tree

mutual

def Open.yield : Open ν → List (Terminal ν)
  | .fix x o => .mark (.keyword .recWord) :: .name x :: .mark .dot :: o.yield
  | .var x v => .name x :: v.yield
  | .actClosed a c v => .name a :: .mark .dot :: (c.yield ++ v.yield)
  | .actOpen a o => .name a :: .mark .dot :: o.yield
  | .paren d v => .mark .parenOpen :: (d.yield ++ .mark .parenClose :: v.yield)

def Tail.yield : Tail ν → List (Terminal ν)
  | .nil => []
  | .res a v => .mark .backslash :: .name a :: v.yield
  | .rel f v => .mark .bracketOpen :: .name f :: .mark .bracketClose :: v.yield
  | .infixClosed op c v => .mark op.mark :: (c.yield ++ v.yield)
  | .infixOpen op o => .mark op.mark :: o.yield

def Derivation.yield : Derivation ν → List (Terminal ν)
  | .ofClosed c => c.yield
  | .ofOpen o => o.yield

end

mutual

def Open.tree : Open ν → Term ν
  | .fix x o => .fix x o.tree
  | .var x v => v.apply (.var x)
  | .actClosed a c v => v.apply (.act a c.tree)
  | .actOpen a o => .act a o.tree
  | .paren d v => v.apply d.tree

/-- The tree of a term and the operators behind it. Each of them is applied to all that comes
before it. -/
def Tail.apply : Tail ν → Term ν → Term ν
  | .nil, t => t
  | .res a v, t => v.apply (.res t a)
  | .rel f v, t => v.apply (.rel t f)
  | .infixClosed op c v, t => v.apply (op.tree t c.tree)
  | .infixOpen op o, t => op.tree t o.tree

def Derivation.tree : Derivation ν → Term ν
  | .ofClosed c => c.tree
  | .ofOpen o => o.tree

end

/-! ## No ambiguity -/

/-- No operator comes first. -/
def Stops (w : List (Terminal ν)) : Prop := ∀ x ∈ w.head?, x.isOperator = false

theorem stops_nil : Stops ([] : List (Terminal ν)) := by simp [Stops]

theorem stops_parenClose (w : List (Terminal ν)) : Stops (.mark .parenClose :: w) := by
  simp [Stops, Terminal.isOperator, isOperator]

@[simp] theorem Infix.mark_ne_backslash (op : Infix) : op.mark ≠ .backslash := by
  cases op <;> nofun

@[simp] theorem Infix.mark_ne_bracketOpen (op : Infix) : op.mark ≠ .bracketOpen := by
  cases op <;> nofun

@[simp] theorem Infix.mark_ne_dot (op : Infix) : op.mark ≠ .dot := by
  cases op <;> nofun

theorem Infix.isOperator_mark (op : Infix) : isOperator op.mark = true := by
  cases op <;> rfl

theorem Infix.mark_inj {op op' : Infix} (h : op.mark = op'.mark) : op = op' := by
  cases op <;> cases op' <;> first | rfl | cases h

variable {c c' : Closed ν} {o o' : Open ν} {v v' : Tail ν} {d d' : Derivation ν}
  {w w' : List (Terminal ν)}

theorem Closed.ne_open (h : c.yield ++ w = o.yield ++ w') : False := by
  induction c generalizing o with
  | nil => cases o <;> simp [Closed.yield, Open.yield] at h
  | fix x c ih =>
    cases o with
    | fix y o =>
      simp only [Closed.yield, Open.yield, List.cons_append, List.cons.injEq] at h
      exact ih h.2.2.2
    | _ => simp [Closed.yield, Open.yield] at h

/-- A closed term stands before anything. -/
theorem Closed.unique (h : c.yield ++ w = c'.yield ++ w') : c = c' ∧ w = w' := by
  induction c generalizing c' with
  | nil =>
    cases c' with
    | nil => exact ⟨rfl, by simpa [Closed.yield] using h⟩
    | fix y c' => simp [Closed.yield] at h
  | fix x c ih =>
    cases c' with
    | nil => simp [Closed.yield] at h
    | fix y c' =>
      simp only [Closed.yield, List.cons_append, List.cons.injEq, Terminal.name.injEq] at h
      obtain ⟨-, rfl, -, h⟩ := h
      obtain ⟨rfl, rfl⟩ := ih h
      exact ⟨rfl, rfl⟩

/-- A tail that is not empty begins with an operator. -/
theorem Tail.eq_nil_of_stops (h : Stops (v.yield ++ w)) : v = .nil := by
  cases v with
  | nil => rfl
  | infixClosed op c v | infixOpen op o =>
    simp [Stops, Tail.yield, Terminal.isOperator, op.isOperator_mark] at h
  | res a v | rel f v => simp [Stops, Tail.yield, Terminal.isOperator, isOperator] at h

theorem Tail.ne_dot (hw : Stops w) (h : v.yield ++ w = .mark .dot :: w') : False := by
  cases v with
  | nil =>
    obtain rfl : w = _ := h
    simp [Stops, Terminal.isOperator, isOperator] at hw
  | _ => simp [Tail.yield] at h

mutual

/-- An open term stands before anything that begins with no operator. -/
theorem Open.unique (o o' : Open ν) {w w' : List (Terminal ν)} (hw : Stops w) (hw' : Stops w')
    (h : o.yield ++ w = o'.yield ++ w') : o = o' ∧ w = w' := by
  cases o with
  | fix x o =>
    cases o' with
    | fix x' o' =>
      simp only [Open.yield, List.cons_append, List.cons.injEq, Terminal.name.injEq] at h
      obtain ⟨-, rfl, -, h⟩ := h
      obtain ⟨rfl, rfl⟩ := Open.unique o o' hw hw' h
      exact ⟨rfl, rfl⟩
    | _ => simp [Open.yield] at h
  | var x v =>
    cases o' with
    | var x' v' =>
      simp only [Open.yield, List.cons_append, List.cons.injEq, Terminal.name.injEq] at h
      obtain ⟨rfl, h⟩ := h
      obtain ⟨rfl, rfl⟩ := Tail.unique v v' hw hw' h
      exact ⟨rfl, rfl⟩
    | actClosed a' c' v' | actOpen a' o' =>
      -- The dot of an action is none of the operators that may follow a variable.
      exact (Tail.ne_dot hw (List.cons.inj h).2).elim
    | _ => simp [Open.yield] at h
  | actClosed a c v =>
    cases o' with
    | actClosed a' c' v' =>
      simp only [Open.yield, List.cons_append, List.append_assoc, List.cons.injEq,
        Terminal.name.injEq] at h
      obtain ⟨rfl, -, h⟩ := h
      obtain ⟨rfl, htail⟩ := Closed.unique h
      obtain ⟨rfl, rfl⟩ := Tail.unique v v' hw hw' htail
      exact ⟨rfl, rfl⟩
    | actOpen a' o' =>
      simp only [Open.yield, List.cons_append, List.append_assoc, List.cons.injEq] at h
      exact (Closed.ne_open h.2.2).elim
    | var x' v' => exact (Tail.ne_dot hw' (List.cons.inj h).2.symm).elim
    | _ => simp [Open.yield] at h
  | actOpen a o =>
    cases o' with
    | actOpen a' o' =>
      simp only [Open.yield, List.cons_append, List.cons.injEq, Terminal.name.injEq] at h
      obtain ⟨rfl, -, h⟩ := h
      obtain ⟨rfl, rfl⟩ := Open.unique o o' hw hw' h
      exact ⟨rfl, rfl⟩
    | actClosed a' c' v' =>
      simp only [Open.yield, List.cons_append, List.append_assoc, List.cons.injEq] at h
      exact (Closed.ne_open h.2.2.symm).elim
    | var x' v' => exact (Tail.ne_dot hw' (List.cons.inj h).2.symm).elim
    | _ => simp [Open.yield] at h
  | paren d v =>
    cases o' with
    | paren d' v' =>
      simp only [Open.yield, List.cons_append, List.append_assoc, List.cons.injEq] at h
      obtain ⟨rfl, htail⟩ := Derivation.unique d d' (stops_parenClose _) (stops_parenClose _) h.2
      obtain ⟨rfl, rfl⟩ := Tail.unique v v' hw hw' (List.cons.inj htail).2
      exact ⟨rfl, rfl⟩
    | _ => simp [Open.yield] at h

/-- So does a tail. What follows one of two tails cannot begin the other. -/
theorem Tail.unique (v v' : Tail ν) {w w' : List (Terminal ν)} (hw : Stops w) (hw' : Stops w')
    (h : v.yield ++ w = v'.yield ++ w') : v = v' ∧ w = w' := by
  have hnil (hv' : v' = .nil) : v = .nil := by
    subst hv'
    exact Tail.eq_nil_of_stops (w := w) (h ▸ hw')
  cases v with
  | nil =>
    obtain rfl : w = _ := h
    obtain rfl := Tail.eq_nil_of_stops hw
    exact ⟨rfl, rfl⟩
  | res a v =>
    cases v' with
    | nil => cases hnil rfl
    | res a' v' =>
      simp only [Tail.yield, List.cons_append, List.cons.injEq, Terminal.name.injEq] at h
      obtain ⟨-, rfl, h⟩ := h
      obtain ⟨rfl, rfl⟩ := Tail.unique v v' hw hw' h
      exact ⟨rfl, rfl⟩
    | _ => exact absurd h.symm (by simp [Tail.yield])
  | rel f v =>
    cases v' with
    | nil => cases hnil rfl
    | rel f' v' =>
      simp only [Tail.yield, List.cons_append, List.cons.injEq, Terminal.name.injEq] at h
      obtain ⟨-, rfl, -, h⟩ := h
      obtain ⟨rfl, rfl⟩ := Tail.unique v v' hw hw' h
      exact ⟨rfl, rfl⟩
    | _ => exact absurd h.symm (by simp [Tail.yield])
  | infixClosed op c v =>
    cases v' with
    | nil => cases hnil rfl
    | infixClosed op' c' v' =>
      simp only [Tail.yield, List.cons_append, List.append_assoc, List.cons.injEq,
        Terminal.mark.injEq] at h
      obtain ⟨hop, h⟩ := h
      obtain rfl := Infix.mark_inj hop
      obtain ⟨rfl, htail⟩ := Closed.unique h
      obtain ⟨rfl, rfl⟩ := Tail.unique v v' hw hw' htail
      exact ⟨rfl, rfl⟩
    | infixOpen op' o' =>
      -- The operand would have to be closed and open at once.
      simp only [Tail.yield, List.cons_append, List.append_assoc, List.cons.injEq] at h
      exact (Closed.ne_open h.2).elim
    | _ => simp [Tail.yield] at h
  | infixOpen op o =>
    cases v' with
    | nil => cases hnil rfl
    | infixOpen op' o' =>
      simp only [Tail.yield, List.cons_append, List.cons.injEq, Terminal.mark.injEq] at h
      obtain ⟨hop, h⟩ := h
      obtain rfl := Infix.mark_inj hop
      obtain ⟨rfl, rfl⟩ := Open.unique o o' hw hw' h
      exact ⟨rfl, rfl⟩
    | infixClosed op' c' v' =>
      simp only [Tail.yield, List.cons_append, List.append_assoc, List.cons.injEq] at h
      exact (Closed.ne_open h.2.symm).elim
    | _ => simp [Tail.yield] at h

/-- So does a term of either kind. -/
theorem Derivation.unique (d d' : Derivation ν) {w w' : List (Terminal ν)} (hw : Stops w)
    (hw' : Stops w') (h : d.yield ++ w = d'.yield ++ w') : d = d' ∧ w = w' := by
  cases d with
  | ofClosed c =>
    cases d' with
    | ofClosed c' =>
      obtain ⟨rfl, rfl⟩ := Closed.unique h
      exact ⟨rfl, rfl⟩
    | ofOpen o' => exact (Closed.ne_open h).elim
  | ofOpen o =>
    cases d' with
    | ofClosed c' => exact (Closed.ne_open h.symm).elim
    | ofOpen o' =>
      obtain ⟨rfl, rfl⟩ := Open.unique o o' hw hw' h
      exact ⟨rfl, rfl⟩

end

/-- Derivations that yield the same are the same. -/
theorem Derivation.yield_inj (h : d.yield = d'.yield) : d = d' :=
  (Derivation.unique d d' stops_nil stops_nil (congrArg (· ++ []) h)).1

end Grammar

end Guardedness
