import Guardedness.Proofs.Parser.Moves
import Guardedness.Proofs.Parser.Sight
import Guardedness.Proofs.SyntaxTree

/-!
# What is written is read back

The text of a tree is made of the texts of its parts, and a parser in front of it reads one part
after the other. Where a part stands decides what the parser is to be left with.

**A part that ends what is around it** (`Closes`). Nothing follows it, or a closing parenthesis
does, and the parser comes to close it.

**A part that something follows** (`Continues`). Whatever that is, the parser comes to ask for the
operators after it. A greedy part would not stop there, and this is why it has parentheses.

An action and a recursion leave it to the part within them where they end, and `nil` ends before
anything. So these are read with what may follow left open (`ClosesBefore`, `ContinuesBefore`).
-/

namespace Guardedness

namespace Parser

open Grammar (Infix)

/-! ## Steps of a run -/

namespace State

variable {p : Parser} {stack : List Frame} {t : SyntaxTree} {action : Option Ident}

theorem run_parenOpen (h : p.current.kind = .parenOpen) :
    run ⟨.operand, stack, p⟩ = run ⟨.operand, .paren :: stack, p.advance⟩ :=
  (Move.paren h).run_eq (passes_one (by simp [h]))

theorem run_identifier (h : p.current.kind = .identifier) :
    run ⟨.operand, stack, p⟩ =
      run ⟨.operators (.var (.ofToken p.current)) (some (.ofToken p.current)), stack, p.advance⟩ :=
  (Move.name h).run_eq (passes_one (by simp [h]))

theorem run_nilWord (h : p.current.kind = .keyword .nilWord) :
    run ⟨.operand, stack, p⟩ = run ⟨.close .nil, stack, p.advance⟩ :=
  (Move.nil h).run_eq (passes_one (by simp [h]))

theorem run_recWord (h : p.current.kind = .keyword .recWord)
    (h₁ : p.advance.current.kind = .identifier) (h₂ : p.advance.advance.current.kind = .dot) :
    run ⟨.operand, stack, p⟩ =
      run ⟨.operand, .fix (.ofToken p.advance.current) :: stack, p.advance.advance.advance⟩ :=
  (Move.fix h h₁ h₂).run_eq
    (.cons (by simp [h]) (.cons (by simp [h₁]) (passes_one (by simp [h₂]))))

theorem run_dot {a : Ident} (h : p.current.kind = .dot) :
    run ⟨.operators t (some a), stack, p⟩ = run ⟨.operand, .act a :: stack, p.advance⟩ :=
  (Move.act h).run_eq (passes_one (by simp [h]))

theorem run_operator {op : Infix} (h : p.current.kind = op.mark) :
    run ⟨.operators t action, stack, p⟩ = run ⟨.operand, .ofInfix op t :: stack, p.advance⟩ := by
  cases op with
  | sum => exact (Move.sum h).run_eq (passes_one (by simp [h, Infix.mark]))
  | par => exact (Move.par h).run_eq (passes_one (by simp [h, Infix.mark]))

theorem run_backslash (h : p.current.kind = .backslash)
    (h₁ : p.advance.current.kind = .identifier) :
    run ⟨.operators t action, stack, p⟩ =
      run ⟨.operators (.res t (.ofToken p.advance.current)) none, stack, p.advance.advance⟩ :=
  (Move.res h h₁).run_eq (.cons (by simp [h]) (passes_one (by simp [h₁])))

theorem run_bracketOpen (h : p.current.kind = .bracketOpen)
    (h₁ : p.advance.current.kind = .identifier)
    (h₂ : p.advance.advance.current.kind = .bracketClose) :
    run ⟨.operators t action, stack, p⟩ =
      run ⟨.operators (.rel t (.ofToken p.advance.current)) none, stack,
        p.advance.advance.advance⟩ :=
  (Move.rel h h₁ h₂).run_eq
    (.cons (by simp [h]) (.cons (by simp [h₁]) (passes_one (by simp [h₂]))))

theorem run_pass (h : p.current.kind = .endOfInput ∨ p.current.kind = .parenClose) :
    run ⟨.operators t action, stack, p⟩ = run ⟨.close t, stack, p⟩ :=
  (Move.pass (by rcases h with h | h <;> rw [h] <;> rfl)).run_eq (.refl p)

theorem run_parenClose (h : p.current.kind = .parenClose) :
    run ⟨.close t, .paren :: stack, p⟩ = run ⟨.operators t none, stack, p.advance⟩ :=
  (Move.closeParen h).run_eq (passes_one (by simp [h]))

theorem run_closeAct {a : Ident} :
    run ⟨.close t, .act a :: stack, p⟩ = run ⟨.operators (.act a t) none, stack, p⟩ :=
  Move.closeAct.run_eq (.refl p)

theorem run_closeFix {x : Ident} :
    run ⟨.close t, .fix x :: stack, p⟩ = run ⟨.close (.fix x t), stack, p⟩ :=
  Move.closeFix.run_eq (.refl p)

theorem run_closeOperator (op : Infix) {s : SyntaxTree} :
    run ⟨.close t, .ofInfix op s :: stack, p⟩ =
      run ⟨.operators (op.tree s t) none, stack, p⟩ := by
  cases op with
  | sum => exact Move.closeSum.run_eq (.refl p)
  | par => exact Move.closePar.run_eq (.refl p)

end State

/-! ## The two ways to read a part -/

/-- What is around a term ends here. -/
inductive Ends : List Char → Prop
  | nil : Ends []
  | paren {cs : List Char} : Ends (')' :: cs)

theorem Ends.noLetter {cs : List Char} (h : Ends cs) : NoLetter cs := by
  cases h with
  | nil =>
    intro c hc
    cases hc
  | paren => exact noLetter_cons rfl

/-- No operator follows where what is around a term ends. -/
theorem Ends.run_pass {cs : List Char} {stack : List Frame} {p : Parser} {t : SyntaxTree}
    {action : Option Ident} (hcs : Ends cs) (hp : p.Sees cs) :
    State.run ⟨.operators t action, stack, p⟩ = State.run ⟨.close t, stack, p⟩ := by
  refine State.run_pass ?_
  cases hcs with
  | nil => exact .inl hp.kind_nil
  | paren => exact .inr (hp.symbol rfl).1

/-- A parser in front of `s` reads `t` and closes it if what follows is as `P` says. -/
def ClosesBefore (P : List Char → Prop) (t : SyntaxTree) (s : String) : Prop :=
  ∀ stack p cs, p.Sees (s.toList ++ cs) → P cs →
    ∃ t' q, t'.proc = t.proc ∧ q.Sees cs ∧
      State.run ⟨.operand, stack, p⟩ = State.run ⟨.close t', stack, q⟩

/-- A parser in front of `s` reads `t` and asks for the operators after it if what follows is as `P`
says. -/
def ContinuesBefore (P : List Char → Prop) (t : SyntaxTree) (s : String) : Prop :=
  ∀ stack p cs, p.Sees (s.toList ++ cs) → P cs →
    ∃ t' action q, t'.proc = t.proc ∧ q.Sees cs ∧
      State.run ⟨.operand, stack, p⟩ = State.run ⟨.operators t' action, stack, q⟩

def Closes (t : SyntaxTree) (s : String) : Prop := ClosesBefore Ends t s

def Continues (t : SyntaxTree) (s : String) : Prop := ContinuesBefore NoLetter t s

variable {t u : SyntaxTree} {s r : String} {a x : Ident} {P : List Char → Prop}

/-- No operator follows where what is around a part ends. -/
theorem ContinuesBefore.closes (h : ContinuesBefore P t s) (hP : ∀ cs, Ends cs → P cs) :
    Closes t s := by
  intro stack p cs hp hcs
  obtain ⟨t', action, q, ht, hq, hrun⟩ := h stack p cs hp (hP cs hcs)
  exact ⟨t', q, ht, hq, hrun.trans (hcs.run_pass hq)⟩

theorem Continues.closes (h : Continues t s) : Closes t s :=
  ContinuesBefore.closes h fun _ => Ends.noLetter

theorem Closes.continues (h : Closes t s) : Continues t ("(" ++ s ++ ")") := by
  intro stack p cs hp hcs
  have hp : p.Sees ('(' :: (s.toList ++ ')' :: cs)) := by simpa using hp
  obtain ⟨hopen, hp⟩ := hp.symbol rfl
  obtain ⟨t', q, ht, hq, hrun⟩ := h (.paren :: stack) _ _ hp .paren
  obtain ⟨hclose, hq⟩ := hq.symbol rfl
  exact ⟨t', none, _, ht, hq,
    (State.run_parenOpen hopen).trans (hrun.trans (State.run_parenClose hclose))⟩

/-! ## The parts of a text -/

theorem closesBefore_nil (hP : ∀ cs, P cs → NoLetter cs) : ClosesBefore P .nil "nil" := by
  intro stack p cs hp hcs
  obtain ⟨hkind, -, hp⟩ := hp.letters (by decide) (List.all_eq_true.mp rfl) (hP cs hcs)
  exact ⟨.nil, _, rfl, hp, State.run_nilWord (hkind.trans rfl)⟩

theorem closes_nil : Closes .nil "nil" := closesBefore_nil fun _ => Ends.noLetter

theorem continues_var (hx : IsWord x.name) : Continues (.var x) x.name := by
  intro stack p cs hp hcs
  obtain ⟨hkind, hname, hp⟩ := hp.word hx hcs
  refine ⟨_, _, _, ?_, hp, State.run_identifier hkind⟩
  rw [SyntaxTree.proc, SyntaxTree.proc, Term.map_var, Term.map_var]
  exact congrArg Term.var hname

/-- Operators may come behind an action where its operand closes. -/
theorem ClosesBefore.act (ha : IsWord a.name) (h : ClosesBefore P t s) :
    ContinuesBefore P (.act a t) (a.name ++ "." ++ s) := by
  intro stack p cs hp hcs
  have hp : p.Sees (a.name.toList ++ '.' :: (s.toList ++ cs)) := by simpa using hp
  obtain ⟨hkind, hname, hp⟩ := hp.word ha (noLetter_cons rfl)
  obtain ⟨hdot, hp⟩ := hp.symbol rfl
  obtain ⟨t', q, ht, hq, hrun⟩ := h (.act (.ofToken p.current) :: stack) _ cs hp hcs
  refine ⟨.act (.ofToken p.current) t', none, q, ?_, hq, ?_⟩
  · rw [SyntaxTree.proc, SyntaxTree.proc, Term.map_act, Term.map_act]
    exact congr (congrArg Term.act hname) ht
  · rw [State.run_identifier hkind, State.run_dot hdot, hrun, State.run_closeAct]

theorem closes_act (ha : IsWord a.name) (h : Closes t s) :
    Closes (.act a t) (a.name ++ "." ++ s) :=
  (ClosesBefore.act ha h).closes fun _ hcs => hcs

theorem ClosesBefore.fix (hx : IsWord x.name) (h : ClosesBefore P t s) :
    ClosesBefore P (.fix x t) ("rec " ++ x.name ++ ". " ++ s) := by
  intro stack p cs hp hcs
  have hp : p.Sees ("rec".toList ++ ' ' :: (x.name.toList ++ '.' :: ' ' :: (s.toList ++ cs))) := by
    simpa using hp
  obtain ⟨hrec, -, hp⟩ := hp.letters (by decide) (List.all_eq_true.mp rfl) (noLetter_cons rfl)
  obtain ⟨hkind, hname, hp⟩ := (hp.blank rfl).word hx (noLetter_cons rfl)
  obtain ⟨hdot, hp⟩ := hp.symbol rfl
  obtain ⟨t', q, ht, hq, hrun⟩ :=
    h (.fix (.ofToken p.advance.current) :: stack) _ cs (hp.blank rfl) hcs
  refine ⟨.fix (.ofToken p.advance.current) t', q, ?_, hq, ?_⟩
  · rw [SyntaxTree.proc, SyntaxTree.proc, Term.map_fix, Term.map_fix]
    exact congr (congrArg Term.fix hname) ht
  · rw [State.run_recWord (hrec.trans rfl) hkind hdot, hrun, State.run_closeFix]

theorem closes_fix (hx : IsWord x.name) (h : Closes t s) :
    Closes (.fix x t) ("rec " ++ x.name ++ ". " ++ s) := ClosesBefore.fix hx h

/-- How an operator is written between its operands. -/
def operatorText : Infix → String
  | .sum => " + "
  | .par => "|"

theorem noLetter_operatorText (op : Infix) (cs : List Char) :
    NoLetter ((operatorText op).toList ++ cs) := by
  cases op <;> exact noLetter_cons rfl

theorem Sees.operatorText {op : Infix} {p : Parser} {cs : List Char}
    (h : p.Sees ((operatorText op).toList ++ cs)) :
    p.current.kind = op.mark ∧ p.advance.Sees cs := by
  cases op with
  | sum =>
    obtain ⟨hkind, h⟩ := (Sees.blank h rfl).symbol rfl
    exact ⟨hkind, h.blank rfl⟩
  | par => exact Sees.symbol h rfl

theorem continues_operator (op : Infix) (ht : Continues t s) (hu : Closes u r) :
    Continues (op.tree t u) ("(" ++ s ++ operatorText op ++ r ++ ")") := by
  intro stack p cs hp hcs
  have hp : p.Sees ('(' :: (s.toList ++ ((operatorText op).toList ++ (r.toList ++ ')' :: cs)))) := by
    simpa using hp
  obtain ⟨hopen, hp⟩ := hp.symbol rfl
  obtain ⟨t', action, q, ht, hq, hrun⟩ :=
    ht (.paren :: stack) _ _ hp (noLetter_operatorText op _)
  obtain ⟨hop, hq⟩ := hq.operatorText
  obtain ⟨u', q', hu, hq', hrun'⟩ := hu (.ofInfix op t' :: .paren :: stack) _ _ hq .paren
  obtain ⟨hclose, hend⟩ := hq'.symbol rfl
  refine ⟨op.tree t' u', none, _, ?_, hend, ?_⟩
  · rw [SyntaxTree.proc, SyntaxTree.proc, Infix.map_tree, Infix.map_tree]
    exact congr (congrArg op.tree ht) hu
  · rw [State.run_parenOpen hopen, hrun, State.run_operator hop, hrun', State.run_closeOperator,
      State.run_pass (.inr hclose), State.run_parenClose hclose]

theorem continues_res (ha : IsWord a.name) (h : Continues t s) :
    Continues (.res t a) (s ++ "\\" ++ a.name) := by
  intro stack p cs hp hcs
  have hp : p.Sees (s.toList ++ '\\' :: (a.name.toList ++ cs)) := by simpa using hp
  obtain ⟨t', action, q, ht, hq, hrun⟩ := h stack p _ hp (noLetter_cons rfl)
  obtain ⟨hback, hq⟩ := hq.symbol rfl
  obtain ⟨hkind, hname, hend⟩ := hq.word ha hcs
  refine ⟨.res t' (.ofToken q.advance.current), none, _, ?_, hend, ?_⟩
  · rw [SyntaxTree.proc, SyntaxTree.proc, Term.map_res, Term.map_res]
    exact congr (congrArg Term.res ht) hname
  · rw [hrun, State.run_backslash hback hkind]

theorem continues_rel (ha : IsWord a.name) (h : Continues t s) :
    Continues (.rel t a) (s ++ "[" ++ a.name ++ "]") := by
  intro stack p cs hp hcs
  have hp : p.Sees (s.toList ++ '[' :: (a.name.toList ++ ']' :: cs)) := by simpa using hp
  obtain ⟨t', action, q, ht, hq, hrun⟩ := h stack p _ hp (noLetter_cons rfl)
  obtain ⟨hopen, hq⟩ := hq.symbol rfl
  obtain ⟨hkind, hname, hq⟩ := hq.word ha (noLetter_cons rfl)
  obtain ⟨hclose, hend⟩ := hq.symbol rfl
  refine ⟨.rel t' (.ofToken q.advance.current), none, _, ?_, hend, ?_⟩
  · rw [SyntaxTree.proc, SyntaxTree.proc, Term.map_rel, Term.map_rel]
    exact congr (congrArg Term.rel ht) hname
  · rw [hrun, State.run_bracketOpen hopen hkind hclose]

/-- A text that closes a tree where it ends is read as this tree. -/
theorem Closes.exists_ofText (h : Closes t s) :
    ∃ t', SyntaxTree.ofText s = .ok t' ∧ t'.proc = t.proc := by
  have hp : (Parser.ofText s).Sees (s.toList ++ []) := by
    rw [List.append_nil]
    exact sees_ofText s
  obtain ⟨t', q, hproc, hq, hrun⟩ := h [] _ [] hp .nil
  refine ⟨t', ?_, hproc⟩
  have hterm : (Parser.ofText s).term = (.ok t', q) := by
    rw [Parser.term, hrun, State.run]
    rfl
  have hend : q.atEnd = true := by simp [Parser.atEnd, hq.kind_nil]
  rw [SyntaxTree.ofText, Parser.wholeTerm, hterm]
  simp [hend]

/-! ## The text of a tree -/

/-- A tree is read from its text, and from its text as an operand. -/
structure IsRead (t : SyntaxTree) : Prop where
  closes : Closes t (Term.render SyntaxTree.style t)
  continues : Continues t (t.renderOperand SyntaxTree.style)

/-- A greedy tree stands in parentheses where something follows it. -/
theorem Closes.isRead (hg : t.isGreedy = true) (h : Closes t (Term.render SyntaxTree.style t)) :
    IsRead t := by
  refine ⟨h, ?_⟩
  rw [Term.renderOperand, hg]
  exact h.continues

theorem Continues.isRead (hg : t.isGreedy = false)
    (h : Continues t (Term.render SyntaxTree.style t)) : IsRead t := by
  refine ⟨h.closes, ?_⟩
  rw [Term.renderOperand, hg]
  exact h

/-- Every tree whose names are words is read. -/
theorem isRead_of_isWord (t : SyntaxTree) (ht : ∀ x ∈ t.names, IsWord x.name) : IsRead t := by
  induction t with
  | nil =>
    refine Closes.isRead rfl ?_
    rw [Term.render_nil]
    exact closes_nil
  | var x =>
    refine Continues.isRead rfl ?_
    rw [Term.render_var]
    exact continues_var (ht x (List.mem_singleton_self x))
  | act a p ih =>
    obtain ⟨ha, hp⟩ := List.forall_mem_cons.mp ht
    refine Closes.isRead rfl ?_
    rw [Term.render_act]
    exact closes_act ha (ih hp).closes
  | fix x p ih =>
    obtain ⟨hx, hp⟩ := List.forall_mem_cons.mp ht
    refine Closes.isRead rfl ?_
    rw [Term.render_fix]
    exact closes_fix hx (ih hp).closes
  | par p q ihp ihq =>
    obtain ⟨hp, hq⟩ := List.forall_mem_append.mp ht
    refine Continues.isRead rfl ?_
    rw [Term.render_par]
    exact continues_operator .par (ihp hp).continues (ihq hq).closes
  | sum p q ihp ihq =>
    obtain ⟨hp, hq⟩ := List.forall_mem_append.mp ht
    refine Continues.isRead rfl ?_
    rw [Term.render_sum]
    exact continues_operator .sum (ihp hp).continues (ihq hq).closes
  | res p a ih =>
    obtain ⟨hp, ha⟩ := List.forall_mem_append.mp ht
    refine Continues.isRead rfl ?_
    rw [Term.render_res]
    exact continues_res (ha a (List.mem_singleton_self a)) (ih hp).continues
  | rel p f ih =>
    obtain ⟨hp, hf⟩ := List.forall_mem_append.mp ht
    refine Continues.isRead rfl ?_
    rw [Term.render_rel]
    exact continues_rel (hf f (List.mem_singleton_self f)) (ih hp).continues

end Parser

end Guardedness
