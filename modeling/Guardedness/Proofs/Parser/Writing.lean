import Guardedness.Proofs.Parser.Grouping

/-!
# Terms and their parentheses

A tree does not tell which parentheses it has been written with. It does tell what can stand between
them: the operands of a node stand on either side of its own tokens, and each of them has its
parentheses to itself.

**Writings** (`Writes`). An operand may stand in any number of pairs of parentheses. There has to be
one at least if an operator follows the operand and would not be applied to it otherwise, as behind
`nil` and behind `a.x` (`Term.takesOperators`). A derivation writes its tree in this way
(`Derivation.written`).

**What a writing keeps.** Without its parentheses it is what the tree is written as without any
(`Writes.bare_eq`), every parenthesis in it has its partner (`Writes.nested`), and each part of the
tree has a place of its own in it (`Written.occurs`).
-/

namespace Guardedness

universe u

namespace Terminal

variable {ν : Type u}

/-- A parenthesis is no part of a term, and only says what belongs together. -/
def isParen : Terminal ν → Bool
  | mark .parenOpen | mark .parenClose => true
  | _ => false

end Terminal

/-- Without parentheses around it the term is what an operator behind it is applied to. -/
def Term.takesOperators {ν : Type u} : Term ν → Bool
  | nil | fix _ _ => false
  | act _ p => p.isClosed
  | _ => true

namespace Grammar

variable {ν : Type u}

/-- Everything but the parentheses. -/
def bare (w : List (Terminal ν)) : List (Terminal ν) := w.filter (!·.isParen)

def opens (n : Nat) : List (Terminal ν) := .replicate n (.mark .parenOpen)

def closes (n : Nat) : List (Terminal ν) := .replicate n (.mark .parenClose)

/-- The terminals in `n` pairs of parentheses. -/
def parens (n : Nat) (w : List (Terminal ν)) : List (Terminal ν) := opens n ++ w ++ closes n

/-- Every parenthesis that is opened is closed, and every one that is closed has been opened. -/
inductive Nested : List (Terminal ν) → Prop
  | nil : Nested []
  | cons {x : Terminal ν} {w : List (Terminal ν)} : x.isParen = false → Nested w → Nested (x :: w)
  | paren {w w' : List (Terminal ν)} : Nested w → Nested w' →
    Nested (.mark .parenOpen :: (w ++ .mark .parenClose :: w'))

/-- The term may be written like this, with no parentheses around the whole of it. -/
inductive Writes : Term ν → List (Terminal ν) → Prop
  | nil : Writes .nil [.mark (.keyword .nilWord)]
  | var (x : ν) : Writes (.var x) [.name x]
  | act {p : Term ν} {w : List (Terminal ν)} (a : ν) (n : Nat) : Writes p w →
    Writes (.act a p) (.name a :: .mark .dot :: parens n w)
  | fix {p : Term ν} {w : List (Terminal ν)} (x : ν) (n : Nat) : Writes p w →
    Writes (.fix x p) (.mark (.keyword .recWord) :: .name x :: .mark .dot :: parens n w)
  | par {p q : Term ν} {w w' : List (Terminal ν)} (m n : Nat) :
    (m = 0 → p.takesOperators = true) → Writes p w → Writes q w' →
    Writes (.par p q) (parens m w ++ .mark .pipe :: parens n w')
  | sum {p q : Term ν} {w w' : List (Terminal ν)} (m n : Nat) :
    (m = 0 → p.takesOperators = true) → Writes p w → Writes q w' →
    Writes (.sum p q) (parens m w ++ .mark .plus :: parens n w')
  | res {p : Term ν} {w : List (Terminal ν)} (a : ν) (m : Nat) :
    (m = 0 → p.takesOperators = true) → Writes p w →
    Writes (.res p a) (parens m w ++ [Terminal.mark .backslash, .name a])
  | rel {p : Term ν} {w : List (Terminal ν)} (f : ν) (m : Nat) :
    (m = 0 → p.takesOperators = true) → Writes p w →
    Writes (.rel p f) (parens m w ++ [Terminal.mark .bracketOpen, .name f, .mark .bracketClose])

/-- The same for a term with any parentheses around it. -/
def Written (t : Term ν) (y : List (Terminal ν)) : Prop := ∃ n w, y = parens n w ∧ Writes t w

variable {t u p : Term ν} {w w' y before behind rest front : List (Terminal ν)} {x : Terminal ν}
  {n : Nat}

/-! ## Parentheses -/

@[simp] theorem bare_nil : bare ([] : List (Terminal ν)) = [] := rfl

@[simp] theorem bare_cons : bare (x :: w) = if x.isParen then bare w else x :: bare w := by
  cases h : x.isParen <;> simp [bare, h]

@[simp] theorem bare_append : bare (w ++ w') = bare w ++ bare w' := List.filter_append ..

@[simp] theorem bare_opens : bare (opens n : List (Terminal ν)) = [] := by
  simp [bare, opens, Terminal.isParen]

@[simp] theorem bare_closes : bare (closes n : List (Terminal ν)) = [] := by
  simp [bare, closes, Terminal.isParen]

@[simp] theorem bare_parens : bare (parens n w) = bare w := by simp [parens]

@[simp] theorem parens_zero : parens 0 w = w := List.append_nil w

theorem parens_succ :
    parens (n + 1) w = .mark .parenOpen :: (parens n w ++ [Terminal.mark .parenClose]) := by
  simp only [parens, opens, closes, List.replicate_succ, List.cons_append, List.append_assoc,
    ← List.replicate_succ']

theorem Nested.append (h : Nested w) (h' : Nested w') : Nested (w ++ w') := by
  induction h with
  | nil => exact h'
  | cons hx _ ih => exact .cons hx ih
  | paren h _ _ ih => simpa using Nested.paren h ih

theorem Nested.parens (h : Nested w) (n : Nat) : Nested (parens n w) := by
  induction n with
  | zero => rwa [parens_zero]
  | succ n ih =>
    rw [parens_succ]
    exact .paren ih .nil

/-! ## What a writing keeps -/

/-- Without its parentheses a writing is that of the term without any. -/
theorem Writes.bare_eq (h : Writes t w) : bare w = t.terminals := by
  induction h with
  | nil | var x => rfl
  | act a n _ ih | fix x n _ ih => simp [ih, Term.terminals, Terminal.isParen]
  | par m n _ _ _ ih ih' | sum m n _ _ _ ih ih' =>
    simp [ih, ih', Term.terminals, Terminal.isParen]
  | res a m _ _ ih | rel f m _ _ ih => simp [ih, Term.terminals, Terminal.isParen]

/-- So every parenthesis of a writing has its partner. -/
theorem Writes.nested (h : Writes t w) : Nested w := by
  induction h with
  | nil | var x => exact .cons rfl .nil
  | act a n _ ih => exact .cons rfl (.cons rfl (ih.parens n))
  | fix x n _ ih => exact .cons rfl (.cons rfl (.cons rfl (ih.parens n)))
  | par m n _ _ _ ih ih' | sum m n _ _ _ ih ih' =>
    exact (ih.parens m).append (.cons rfl (ih'.parens n))
  | res a m _ _ ih => exact (ih.parens m).append (.cons rfl (.cons rfl .nil))
  | rel f m _ _ ih => exact (ih.parens m).append (.cons rfl (.cons rfl (.cons rfl .nil)))

/-- The operand that a term begins with comes first, within the parentheses of the term. -/
theorem Written.left (h : Written t y) (ht : t.left? = some (p, rest)) :
    ∃ o own c, y = o ++ own ++ c ∧ Written p own ∧ bare o = [] ∧ bare c = rest := by
  obtain ⟨n, w, rfl, h⟩ := h
  have place (own w' : List (Terminal ν)) : parens n (own ++ w') =
      opens n ++ own ++ (w' ++ closes n) := by
    simp [parens]
  cases h with
  | nil | var | act | fix => cases ht
  | par m k _ hp hq | sum m k _ hp hq =>
    cases ht
    exact ⟨_, _, _, place _ _, ⟨m, _, rfl, hp⟩, by simp, by simp [hq.bare_eq, Terminal.isParen]⟩
  | res a m _ hp | rel f m _ hp =>
    cases ht
    exact ⟨_, _, _, place _ _, ⟨m, _, rfl, hp⟩, by simp, by simp [Terminal.isParen]⟩

/-- The operand that it ends with comes last. -/
theorem Written.right (h : Written t y) (ht : t.right? = some (front, p)) :
    ∃ o own c, y = o ++ own ++ c ∧ Written p own ∧ bare o = front ∧ bare c = [] := by
  obtain ⟨n, w, rfl, h⟩ := h
  have place (w' own : List (Terminal ν)) (hw : w = w' ++ own) : parens n w =
      opens n ++ w' ++ own ++ closes n := by
    simp [hw, parens]
  cases h with
  | nil | var | res | rel => cases ht
  | act a k hp =>
    cases ht
    exact ⟨_, _, _, place [.name a, .mark .dot] _ rfl, ⟨k, _, rfl, hp⟩, by simp [Terminal.isParen],
      by simp⟩
  | fix x k hp =>
    cases ht
    exact ⟨_, _, _, place [.mark (.keyword .recWord), .name x, .mark .dot] _ rfl, ⟨k, _, rfl, hp⟩,
      by simp [Terminal.isParen], by simp⟩
  | par m k _ hp hq | sum m k _ hp hq =>
    cases ht
    exact ⟨_, _, _, place _ _ (List.append_cons ..), ⟨k, _, rfl, hq⟩,
      by simp [hp.bare_eq, Terminal.isParen], by simp⟩

theorem Written.occurs (hu : Term.Occurs u t before behind) (h : Written t y) :
    ∃ o own c, y = o ++ own ++ c ∧ Written u own ∧ bare o = before ∧ bare c = behind := by
  induction hu generalizing y with
  | self => exact ⟨[], y, [], by simp, h, rfl, rfl⟩
  | left ht _ ih =>
    obtain ⟨o, own, c, rfl, hp, ho, rfl⟩ := h.left ht
    obtain ⟨o', own', c', rfl, hu, rfl, rfl⟩ := ih hp
    exact ⟨o ++ o', own', c' ++ c, by simp, hu, by simp [ho], by simp⟩
  | right ht _ ih =>
    obtain ⟨o, own, c, rfl, hp, rfl, hc⟩ := h.right ht
    obtain ⟨o', own', c', rfl, hu, rfl, rfl⟩ := ih hp
    exact ⟨o ++ o', own', c' ++ c, by simp, hu, by simp, by simp [hc]⟩

/-! ## Derivations -/

theorem Infix.writes (op : Infix) {m n : Nat} (hm : m = 0 → t.takesOperators = true)
    (ht : Writes t w) (hu : Writes u w') :
    Writes (op.tree t u) (parens m w ++ .mark op.mark :: parens n w') := by
  cases op with
  | sum => exact .sum m n hm ht hu
  | par => exact .par m n hm ht hu

theorem Infix.takesOperators_tree (op : Infix) : (op.tree t u).takesOperators = true := by
  cases op <;> rfl

theorem Closed.writes (c : Closed ν) : Writes c.tree c.yield := by
  induction c with
  | nil => exact .nil
  | fix x c ih => simpa [tree, yield] using Writes.fix x 0 ih

mutual

/-- A derivation writes its tree. -/
theorem Open.written (o : Open ν) : Written o.tree o.yield := by
  cases o with
  | fix x o =>
    obtain ⟨n, w, hy, h⟩ := o.written
    exact ⟨0, _, by rw [Open.yield, hy, parens_zero], .fix x n h⟩
  | var x v => exact v.written 0 (.var x) fun _ => rfl
  | actClosed a c v =>
    have h := v.written 0 (.act a 0 c.writes) fun _ => c.isClosed_tree
    simpa [Open.tree, Open.yield] using h
  | actOpen a o =>
    obtain ⟨n, w, hy, h⟩ := o.written
    exact ⟨0, _, by rw [Open.yield, hy, parens_zero], .act a n h⟩
  | paren d v =>
    obtain ⟨n, w, hy, h⟩ := d.written
    have h := v.written (n + 1) h nofun
    simpa [Open.tree, Open.yield, hy, parens_succ] using h

theorem Tail.written (v : Tail ν) (n : Nat) {t : Term ν} {w : List (Terminal ν)} (h : Writes t w)
    (ht : n = 0 → t.takesOperators = true) : Written (v.apply t) (parens n w ++ v.yield) := by
  cases v with
  | nil => exact ⟨n, w, List.append_nil _, h⟩
  | res a v =>
    -- What the next operator is applied to ends with this one, and has no parentheses around it.
    have h := v.written 0 (.res a n ht h) fun _ => rfl
    simpa [Tail.apply, Tail.yield] using h
  | rel f v =>
    have h := v.written 0 (.rel f n ht h) fun _ => rfl
    simpa [Tail.apply, Tail.yield] using h
  | infixClosed op c v =>
    have h := v.written 0 (op.writes ht h c.writes (n := 0)) fun _ => op.takesOperators_tree
    simpa [Tail.apply, Tail.yield] using h
  | infixOpen op o =>
    obtain ⟨m, w', hy, ho⟩ := o.written
    exact ⟨0, _, by rw [Tail.yield, hy, parens_zero], op.writes ht h ho⟩

theorem Derivation.written (d : Derivation ν) : Written d.tree d.yield := by
  cases d with
  | ofClosed c => exact ⟨0, _, parens_zero.symm, c.writes⟩
  | ofOpen o => exact o.written

end

end Grammar

end Guardedness
