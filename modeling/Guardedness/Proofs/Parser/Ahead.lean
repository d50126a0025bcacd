import Guardedness.Parser
import Guardedness.Proofs.Lexer.Calls

/-!
# The tokens ahead of a parser

A parser holds two tokens and a lexer that reads on behind them. Seen as one, they are a list of
tokens that ends before the end token (`Parser.ahead`), and reading past a token takes it off the
front. Reading past some tokens (`Passes`) takes a parser to where the lexer has been called once
for each of them (`Passes.eq_afterCalls`).
-/

namespace Guardedness

namespace Parser

/-- The tokens from the current one on, without the end token. -/
def ahead (p : Parser) : List Token :=
  if _h : p.current.kind = .endOfInput then [] else p.current :: p.advance.ahead
termination_by p.remaining
decreasing_by exact remaining_advance_lt ‹_›

def kinds (p : Parser) : List Token.Kind := p.ahead.map Token.kind

variable {p : Parser}

theorem ahead_of_end (h : p.current.kind = .endOfInput) : p.ahead = [] := by
  rw [ahead, dif_pos h]

theorem ahead_of_ne (h : p.current.kind ≠ .endOfInput) :
    p.ahead = p.current :: p.advance.ahead := by
  rw [ahead, dif_neg h]

theorem head?_ahead (p : Parser) :
    p.ahead.head? = if p.current.kind = .endOfInput then none else some p.current := by
  split
  · next h => rw [ahead_of_end h, List.head?_nil]
  · next h => rw [ahead_of_ne h, List.head?_cons]

theorem atEnd_iff : p.atEnd = true ↔ p.ahead = [] := by
  by_cases h : p.current.kind = .endOfInput
  · simp [atEnd, h, ahead_of_end]
  · simp [atEnd, h, ahead_of_ne]

/-! ## Reading past tokens -/

/-- Reading past the tokens `ts`, none of which is the end token, takes a parser from `p` to `q`. -/
inductive Passes : Parser → List Token → Parser → Prop
  | refl (p : Parser) : Passes p [] p
  | cons {p q : Parser} {ts : List Token} : p.current.kind ≠ .endOfInput →
    Passes p.advance ts q → Passes p (p.current :: ts) q

variable {q : Parser} {ts : List Token}

theorem Passes.ahead_eq (h : Passes p ts q) : p.ahead = ts ++ q.ahead := by
  induction h with
  | refl => rfl
  | cons hne _ ih => rw [ahead_of_ne hne, ih, List.cons_append]

theorem Passes.kinds_eq (h : Passes p ts q) : p.kinds = ts.map Token.kind ++ q.kinds := by
  rw [kinds, h.ahead_eq, List.map_append, kinds]

theorem exists_passes_of_ahead {us : List Token} (h : p.ahead = ts ++ us) :
    ∃ q, Passes p ts q ∧ q.ahead = us := by
  induction ts generalizing p with
  | nil => exact ⟨p, .refl p, h⟩
  | cons t ts ih =>
    by_cases hend : p.current.kind = .endOfInput
    · rw [ahead_of_end hend] at h
      cases h
    · rw [ahead_of_ne hend] at h
      obtain ⟨rfl, hahead⟩ := List.cons.inj h
      obtain ⟨q, hpass, hq⟩ := ih hahead
      exact ⟨q, .cons hend hpass, hq⟩

/-- A parser that has read past tokens is where the lexer is after as many calls. -/
theorem Passes.eq_afterCalls {l : Lexer} (h : Passes (.ofLexer l) ts q) :
    q = .ofLexer (l.afterCalls ts.length) ∧ l.tokens[ts.length]? = some q.current := by
  generalize hp : Parser.ofLexer l = p at h
  induction h generalizing l with
  | refl =>
    subst hp
    refine ⟨rfl, ?_⟩
    by_cases hend : l.next.1.kind = .endOfInput
    · rw [Lexer.tokens_of_end hend]
      rfl
    · rw [Lexer.tokens_of_ne hend]
      rfl
  | cons hne _ ih =>
    subst hp
    obtain ⟨hq, ht⟩ := ih (l := l.next.2) rfl
    refine ⟨hq, ?_⟩
    rw [Lexer.tokens_of_ne hne]
    exact ht

theorem Passes.unique {us : List Token} (h : Passes p ts q) (h' : Passes p us q) : ts = us :=
  List.append_cancel_right (h.ahead_eq.symm.trans h'.ahead_eq)

theorem Passes.token_ne_end {l : Lexer} (h : Passes (.ofLexer l) ts q) :
    ∀ i < ts.length, (l.token i).kind ≠ .endOfInput := by
  generalize hp : Parser.ofLexer l = p at h
  induction h generalizing l with
  | refl => exact fun i hi => absurd hi (Nat.not_lt_zero i)
  | cons hne _ ih =>
    subst hp
    intro i hi
    cases i with
    | zero => exact hne
    | succ i => exact ih (l := l.next.2) rfl i (Nat.lt_of_succ_lt_succ hi)

/-- A parser reads past the same tokens in front of another text that has them there. -/
theorem Passes.of_tokens {l l' : Lexer} (h : Passes (.ofLexer l) ts q)
    (agree : ∀ i < ts.length, l'.token i = l.token i) :
    Passes (.ofLexer l') ts (.ofLexer (l'.afterCalls ts.length)) := by
  generalize hp : Parser.ofLexer l = p at h
  induction h generalizing l l' with
  | refl => exact .refl _
  | cons hne _ ih =>
    subst hp
    have hcurrent : (Parser.ofLexer l').current = (Parser.ofLexer l).current :=
      agree 0 (Nat.succ_pos _)
    rw [← hcurrent] at hne ⊢
    have hrest : ∀ i < _, l'.next.2.token i = l.next.2.token i :=
      fun i hi => agree (i + 1) (Nat.succ_lt_succ hi)
    exact .cons hne (ih hrest rfl)

end Parser

namespace Lexer

/-- A lexer reads the tokens ahead of a parser that starts with it, and then the end token. -/
theorem dropLast_tokens (l : Lexer) : l.tokens.dropLast = (Parser.ofLexer l).ahead := by
  induction l using induct with
  | stop l h =>
    rw [tokens_of_end h, Parser.ahead_of_end (p := .ofLexer l) h, List.dropLast_singleton]
  | more l h ih =>
    have hahead : (Parser.ofLexer l).ahead = l.next.1 :: (Parser.ofLexer l.next.2).ahead :=
      Parser.ahead_of_ne h
    rw [tokens_of_ne h, hahead, ← ih, List.dropLast_cons_of_ne_nil l.next.2.tokens_ne_nil]

end Lexer

theorem Parser.Passes.take_tokens {l : Lexer} {q : Parser} {ts : List Token}
    (h : Passes (.ofLexer l) ts q) : l.tokens.take ts.length = ts := by
  have hfront : ts <+: l.tokens.dropLast := by
    rw [l.dropLast_tokens, h.ahead_eq]
    exact List.prefix_append _ _
  exact (List.prefix_iff_eq_take.mp (hfront.trans (List.dropLast_prefix _))).symm

end Guardedness
