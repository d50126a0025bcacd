import Guardedness.Proc
import Guardedness.Proofs.Lexer.Munch
import Guardedness.Proofs.Parser.Deriving

/-!
# How operators group

Without parentheses, the tokens of a text are those of its tree in order (`Term.terminals`), and
each node of the tree stands somewhere among them (`Term.Occurs`).

One would expect that chains group to the right: that everything behind an operator is its operand.
It is not quite so. Nothing can follow `nil`, nor a recursion that ends with it, and an operator
behind such an operand is applied to the innermost action, choice or composition that the operand
completes: `a.nil + b` is a choice between `a.nil` and `b`.

**What holds** (`Term.Grouped`). An operand that is followed by anything is closed, and what an
operator is applied to is never a recursion. It is so in a derivation, where an operator stands
behind a name, or where a tail goes on behind a closed operand (`Grammar.Tail.grouped_apply`).
-/

namespace Guardedness

universe u

namespace Term

variable {ν : Type u}

/-- What a term is written as, without any parentheses. -/
def terminals : Term ν → List (Terminal ν)
  | nil => [.mark (.keyword .nilWord)]
  | var x => [.name x]
  | act a p => .name a :: .mark .dot :: p.terminals
  | fix x p => .mark (.keyword .recWord) :: .name x :: .mark .dot :: p.terminals
  | par p q => p.terminals ++ .mark .pipe :: q.terminals
  | sum p q => p.terminals ++ .mark .plus :: q.terminals
  | res p a => p.terminals ++ [.mark .backslash, .name a]
  | rel p f => p.terminals ++ [.mark .bracketOpen, .name f, .mark .bracketClose]

/-- The operand that a term begins with, and what is behind it. -/
def left? : Term ν → Option (Term ν × List (Terminal ν))
  | nil | var _ | act _ _ | fix _ _ => none
  | par p q => some (p, .mark .pipe :: q.terminals)
  | sum p q => some (p, .mark .plus :: q.terminals)
  | res p a => some (p, [.mark .backslash, .name a])
  | rel p f => some (p, [.mark .bracketOpen, .name f, .mark .bracketClose])

/-- The operand that a term ends with, and what is before it. -/
def right? : Term ν → Option (List (Terminal ν) × Term ν)
  | nil | var _ | res _ _ | rel _ _ => none
  | act a p => some ([.name a, .mark .dot], p)
  | fix x p => some ([.mark (.keyword .recWord), .name x, .mark .dot], p)
  | par p q => some (p.terminals ++ [.mark .pipe], q)
  | sum p q => some (p.terminals ++ [.mark .plus], q)

/-- The term is `nil`, or a recursion that ends with it. -/
def isClosed : Term ν → Bool
  | nil => true
  | fix _ p => p.isClosed
  | _ => false

/-- The term `u` stands in another one, with `before` and `behind` around it. -/
inductive Occurs (u : Term ν) : Term ν → (before behind : List (Terminal ν)) → Prop
  | self : Occurs u u [] []
  | left {t p : Term ν} {before behind rest : List (Terminal ν)} :
    t.left? = some (p, rest) → Occurs u p before behind → Occurs u t before (behind ++ rest)
  | right {t p : Term ν} {before behind front : List (Terminal ν)} :
    t.right? = some (front, p) → Occurs u p before behind → Occurs u t (front ++ before) behind

/-- An operand that is followed by something is closed, and no recursion is followed by an operator
that is applied to it. There is something behind the whole term if it is `followed`. -/
def Grouped (followed : Bool) : Term ν → Prop
  | nil | var _ => True
  | act _ p | fix _ p => (followed = true → p.isClosed = true) ∧ Grouped followed p
  | par p q | sum p q => p.node.kind ≠ .fix ∧ Grouped true p ∧
      (followed = true → q.isClosed = true) ∧ Grouped followed q
  | res p _ | rel p _ => p.node.kind ≠ .fix ∧ Grouped true p

variable {t u p q : Term ν} {before behind rest front : List (Terminal ν)} {followed : Bool}

/-! ## Among the tokens -/

theorem terminals_left (h : t.left? = some (p, rest)) : t.terminals = p.terminals ++ rest := by
  cases t <;> cases h <;> rfl

theorem terminals_right (h : t.right? = some (front, p)) : t.terminals = front ++ p.terminals := by
  cases t <;> cases h <;> simp [terminals]

theorem left?_ne_nil (h : t.left? = some (p, rest)) : rest ≠ [] := by
  cases t <;> cases h <;> exact List.cons_ne_nil _ _

theorem Occurs.terminals_eq (h : Occurs u t before behind) :
    t.terminals = before ++ u.terminals ++ behind := by
  induction h with
  | self => rw [List.nil_append, List.append_nil]
  | left ht _ ih => rw [terminals_left ht, ih, List.append_assoc]
  | right ht _ ih =>
    rw [terminals_right ht, ih, List.append_assoc, List.append_assoc, List.append_assoc]

/-! ## Groups -/

theorem Grouped.left (h : Grouped followed t) (ht : t.left? = some (p, rest)) :
    p.node.kind ≠ .fix ∧ Grouped true p := by
  cases t <;> cases ht
  case par | sum => exact ⟨h.1, h.2.1⟩
  case res | rel => exact h

theorem Grouped.right (h : Grouped followed t) (ht : t.right? = some (front, p)) :
    (followed = true → p.isClosed = true) ∧ Grouped followed p := by
  cases t <;> cases ht
  case act | fix => exact h
  case par | sum => exact h.2.2

/-- Less is asked of a term that nothing follows. -/
theorem Grouped.mono (h : Grouped true t) : Grouped followed t := by
  induction t with
  | nil | var => trivial
  | act a p ih | fix x p ih => exact ⟨fun _ => h.1 rfl, ih h.2⟩
  | par p q ihp ihq | sum p q ihp ihq =>
    exact ⟨h.1, h.2.1, fun _ => h.2.2.1 rfl, ihq h.2.2.2⟩
  | res p a ih | rel p f ih => exact h

/-- What stands somewhere in a term is grouped, as a term that is followed by what is behind it. -/
theorem Occurs.grouped (hu : Occurs u t before behind) (h : Grouped followed t) :
    Grouped (followed || !behind.isEmpty) u := by
  induction hu generalizing followed with
  | self => rwa [List.isEmpty_nil, Bool.not_true, Bool.or_false]
  | @left _ _ _ behind rest ht _ ih =>
    have hbehind : (behind ++ rest).isEmpty = false :=
      List.isEmpty_eq_false_iff.mpr (List.append_ne_nil_of_right_ne_nil _ (left?_ne_nil ht))
    rw [hbehind, Bool.not_false, Bool.or_true]
    exact ih (h.left ht).2
  | right ht _ ih => exact ih (h.right ht).2

end Term

namespace Grammar

open Term (Grouped)

variable {ν : Type u} {op : Infix} {followed : Bool} {s t : Term ν} {w : List (Terminal ν)}

/-- No parenthesis is opened. -/
def NoParen (w : List (Terminal ν)) : Prop := .mark .parenOpen ∉ w

theorem NoParen.of_cons {x : Terminal ν} (h : NoParen (x :: w)) : NoParen w :=
  fun hw => h (List.mem_cons_of_mem x hw)

theorem NoParen.of_append {w' : List (Terminal ν)} (h : NoParen (w ++ w')) :
    NoParen w ∧ NoParen w' :=
  ⟨fun hw => h (List.mem_append_left w' hw), fun hw => h (List.mem_append_right w hw)⟩

theorem Infix.terminals_tree :
    (op.tree s t).terminals = s.terminals ++ .mark op.mark :: t.terminals := by
  cases op <;> rfl

theorem Infix.grouped_tree : Grouped followed (op.tree s t) ↔ s.node.kind ≠ .fix ∧
    Grouped true s ∧ (followed = true → t.isClosed = true) ∧ Grouped followed t := by
  cases op <;> rfl

theorem Infix.kind_tree : (op.tree s t).node.kind ≠ .fix := by
  cases op <;> nofun

/-! ## Derivations without parentheses -/

theorem Closed.terminals_tree (c : Closed ν) : c.tree.terminals = c.yield := by
  induction c with
  | nil => rfl
  | fix x c ih => rw [tree, Term.terminals, yield, ih]

theorem Closed.isClosed_tree (c : Closed ν) : c.tree.isClosed = true := by
  induction c with
  | nil => rfl
  | fix x c ih => exact ih

theorem Closed.grouped_tree (c : Closed ν) : Grouped followed c.tree := by
  induction c with
  | nil => trivial
  | fix x c ih => exact ⟨fun _ => c.isClosed_tree, ih⟩

mutual

/-- Without parentheses a tree is written as its derivation yields. -/
theorem Open.terminals_tree (o : Open ν) (h : NoParen o.yield) : o.tree.terminals = o.yield := by
  cases o with
  | fix x o =>
    rw [Open.tree, Term.terminals, Open.yield, o.terminals_tree h.of_cons.of_cons.of_cons]
  | var x v => rw [Open.tree, Open.yield, v.terminals_apply h.of_cons]; rfl
  | actClosed a c v =>
    rw [Open.tree, Open.yield, v.terminals_apply h.of_cons.of_cons.of_append.2, Term.terminals,
      c.terminals_tree]
    rfl
  | actOpen a o => rw [Open.tree, Term.terminals, Open.yield, o.terminals_tree h.of_cons.of_cons]
  | paren d v => exact absurd (List.mem_cons_self ..) h

theorem Tail.terminals_apply (v : Tail ν) (h : NoParen v.yield) (t : Term ν) :
    (v.apply t).terminals = t.terminals ++ v.yield := by
  cases v with
  | nil => rw [Tail.apply, Tail.yield, List.append_nil]
  | res a v =>
    rw [Tail.apply, Tail.yield, v.terminals_apply h.of_cons.of_cons, Term.terminals,
      List.append_assoc]
    rfl
  | rel f v =>
    rw [Tail.apply, Tail.yield, v.terminals_apply h.of_cons.of_cons.of_cons, Term.terminals,
      List.append_assoc]
    rfl
  | infixClosed op c v =>
    rw [Tail.apply, Tail.yield, v.terminals_apply h.of_cons.of_append.2, Infix.terminals_tree,
      c.terminals_tree, List.append_assoc]
    rfl
  | infixOpen op o =>
    rw [Tail.apply, Tail.yield, Infix.terminals_tree, o.terminals_tree h.of_cons]

end

mutual

/-- Without parentheses a derivation groups its operands. -/
theorem Open.grouped_tree (o : Open ν) (h : NoParen o.yield) : Grouped false o.tree := by
  cases o with
  | fix x o => exact ⟨nofun, o.grouped_tree h.of_cons.of_cons.of_cons⟩
  | var x v => exact v.grouped_apply h.of_cons nofun trivial
  | actClosed a c v =>
    exact v.grouped_apply h.of_cons.of_cons.of_append.2 nofun
      ⟨fun _ => c.isClosed_tree, c.grouped_tree⟩
  | actOpen a o => exact ⟨nofun, o.grouped_tree h.of_cons.of_cons⟩
  | paren d v => exact absurd (List.mem_cons_self ..) h

theorem Tail.grouped_apply (v : Tail ν) (h : NoParen v.yield) {t : Term ν}
    (hkind : t.node.kind ≠ .fix) (ht : Grouped true t) : Grouped false (v.apply t) := by
  cases v with
  | nil => exact ht.mono
  | res a v => exact v.grouped_apply h.of_cons.of_cons nofun ⟨hkind, ht⟩
  | rel f v => exact v.grouped_apply h.of_cons.of_cons.of_cons nofun ⟨hkind, ht⟩
  | infixClosed op c v =>
    refine v.grouped_apply h.of_cons.of_append.2 Infix.kind_tree ?_
    exact Infix.grouped_tree.mpr ⟨hkind, ht, fun _ => c.isClosed_tree, c.grouped_tree⟩
  | infixOpen op o =>
    exact Infix.grouped_tree.mpr ⟨hkind, ht, nofun, o.grouped_tree h.of_cons⟩

end

theorem Derivation.terminals_tree (d : Derivation ν) (h : NoParen d.yield) :
    d.tree.terminals = d.yield := by
  cases d with
  | ofClosed c => exact c.terminals_tree
  | ofOpen o => exact o.terminals_tree h

theorem Derivation.grouped_tree (d : Derivation ν) (h : NoParen d.yield) :
    Grouped false d.tree := by
  cases d with
  | ofClosed c => exact c.grouped_tree
  | ofOpen o => exact o.grouped_tree h

end Grammar

/-! ## Texts without parentheses -/

theorem Lexer.mem_rest_of_symbol {l : Lexer} {c : Char} {k : Token.Kind} {x : Token}
    (hc : Token.Kind.ofSymbol? c = some k) (hx : x ∈ l.tokens) (hk : x.kind = k) : c ∈ l.rest := by
  induction l using induct with
  | stop l h =>
    rw [tokens_of_end h, List.mem_singleton] at hx
    rw [← hk, hx] at hc
    exact absurd h (kind_of_symbol hc).2.2
  | more l h ih =>
    obtain ⟨gap, call⟩ := l.exists_call
    rw [call.rest]
    refine List.mem_append_right gap ?_
    rw [tokens_of_ne h, List.mem_cons] at hx
    obtain rfl | hx := hx
    · have hliteral := ((spelled_next h).eq_symbol_iff hc).mp hk
      rw [hliteral]
      exact List.mem_append_left _ (List.mem_singleton_self c)
    · exact List.mem_append_right _ (ih hx)

namespace SyntaxTree

variable {s : String} {t : SyntaxTree}

theorem noParen_terminals (hs : '(' ∉ s.toList) :
    Grammar.NoParen ((Lexer.ofText s).tokens.dropLast.map Token.terminal) := by
  intro hmem
  obtain ⟨x, hx, hterminal⟩ := List.mem_map.mp hmem
  have hkind : x.kind = .parenOpen := by
    unfold Token.terminal at hterminal
    split at hterminal
    · cases hterminal
    · exact Terminal.mark.inj hterminal
  exact hs (Lexer.mem_rest_of_symbol rfl ((List.dropLast_sublist _).subset hx) hkind)

/-- **In a text without parentheses, nothing stands behind the last operand of an operator, an
action or a recursion, unless this operand is `nil` or a recursion that ends with `nil`. An operator
is never applied to a recursion, and to an action, a choice or a composition only if its last
operand is of this kind.** -/
theorem ofText_grouped (hs : '(' ∉ s.toList) (h : ofText s = .ok t) {u : SyntaxTree}
    {before behind : List (Terminal Ident)} (hu : Term.Occurs u t before behind) :
    (Lexer.ofText s).tokens.dropLast.map Token.terminal = before ++ u.terminals ++ behind ∧
      (∀ p rest, u.left? = some (p, rest) → p.node.kind ≠ .fix ∧
        ∀ front q, p.right? = some (front, q) → q.isClosed = true) ∧
      ∀ front q, u.right? = some (front, q) → behind = [] ∨ q.isClosed = true := by
  obtain ⟨d, hyield, rfl⟩ := exists_derivation_of_ofText h
  have hparen : Grammar.NoParen d.yield := by
    rw [hyield]
    exact noParen_terminals hs
  have hgrouped := hu.grouped (d.grouped_tree hparen)
  refine ⟨?_, ?_, ?_⟩
  · rw [← hyield, ← d.terminals_tree hparen, hu.terminals_eq]
  · intro p rest hp
    obtain ⟨hkind, hleft⟩ := hgrouped.left hp
    exact ⟨hkind, fun front q hq => (hleft.right hq).1 rfl⟩
  · intro front q hq
    by_cases hbehind : behind = []
    · exact .inl hbehind
    · exact .inr ((hgrouped.right hq).1 (by simpa using hbehind))

/-- In `a.nil + b` the choice is applied to an action that ends with `nil`. -/
theorem ofText_grouped_of_nil :
    '(' ∉ "a.nil + b".toList ∧
      ofText "a.nil + b" = .ok (.sum (.act ⟨"a", ⟨0, 1, 1, 1⟩⟩ .nil) (.var ⟨"b", ⟨8, 9, 1, 9⟩⟩)) ∧
      ∀ front q, Term.right? (.act (⟨"a", ⟨0, 1, 1, 1⟩⟩ : Ident) .nil) = some (front, q) →
        q.isClosed = true := by
  have hs : '(' ∉ "a.nil + b".toList := by decide
  have h : ofText "a.nil + b" =
      .ok (.sum (.act ⟨"a", ⟨0, 1, 1, 1⟩⟩ .nil) (.var ⟨"b", ⟨8, 9, 1, 9⟩⟩)) := by cbv
  obtain ⟨-, hleft, -⟩ := ofText_grouped hs h .self
  exact ⟨hs, h, (hleft _ _ rfl).2⟩

/-- Chains do not always group to the right: in `a.nil + b` the choice begins with an action, and in
`a + nil + b` not all that is behind the first operator is its operand. -/
theorem not_grouped_right :
    (¬∀ s t, '(' ∉ s.toList → ofText s = .ok t → ∀ u before behind,
      Term.Occurs u t before behind → ∀ p rest, u.left? = some (p, rest) →
        p.node.kind ∉ [.act, .fix, .sum, .par]) ∧
    ¬∀ s t, '(' ∉ s.toList → ofText s = .ok t → ∀ u before behind,
      Term.Occurs u t before behind → u.node.kind ∈ [.fix, .sum, .par] →
        ∀ front q, u.right? = some (front, q) → behind = [] := by
  constructor
  · intro h
    have hread : ofText "a.nil + b" =
        .ok (.sum (.act ⟨"a", ⟨0, 1, 1, 1⟩⟩ .nil) (.var ⟨"b", ⟨8, 9, 1, 9⟩⟩)) := by cbv
    exact h "a.nil + b" _ (by decide) hread _ _ _ .self _ _ rfl (by decide)
  · intro h
    have hread : ofText "a + nil + b" =
        .ok (.sum (.sum (.var ⟨"a", ⟨0, 1, 1, 1⟩⟩) .nil) (.var ⟨"b", ⟨10, 11, 1, 11⟩⟩)) := by cbv
    have hbehind := h "a + nil + b" _ (by decide) hread _ _ _ (.left rfl .self) (by decide) _ _ rfl
    cases hbehind

end SyntaxTree

end Guardedness
