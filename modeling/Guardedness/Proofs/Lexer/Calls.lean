import Guardedness.Proofs.Lexer.Front

/-!
# A lexer, call after call

A call reads a gap of blanks and a token behind it, which is empty only at the end (`Lexer.Call`).

Asking a lexer for its next token over and over gives an endless stream of tokens
(`Lexer.token`), in which nothing but the end token follows the first end token
(`Lexer.token_of_end`). All tokens of a text are the front of that stream, up to the first end token
(`Lexer.tokens_of_ne`, `Lexer.tokens_of_end`), and the stream is these tokens and then the end token
for ever (`Lexer.stream_eq_token`).
-/

namespace Guardedness

/-- A token without its place. -/
def Token.spelling (t : Token) : Token.Kind × String := (t.kind, t.literal)

namespace Lexer

/-- A call reads the blanks `gap` and a token. -/
structure Call (l : Lexer) (gap : List Char) : Prop where
  blank : ∀ c ∈ gap, isBlank c = true
  rest : l.rest = gap ++ (l.next.1.literal.toList ++ l.next.2.rest)
  literal : l.next.1.literal = "" ↔ l.next.1.kind = .endOfInput
  rest_of_end : l.next.1.kind = .endOfInput → l.next.2.rest = []
  span : l.next.1.span = (l.position.after gap).spanTo l.next.2.position
  position : l.next.2.position = (l.position.after gap).after l.next.1.literal.toList

theorem exists_call (l : Lexer) : ∃ gap, l.Call gap := by
  obtain ⟨cs, pos⟩ := l
  cases begins cs with
  | blank hgap =>
    refine ⟨cs, hgap, ?_, ?_, ?_, ?_, ?_⟩ <;> simp [next_of_blanks pos hgap]
  | @token gap w rest k hgap hw hend =>
    refine ⟨gap, hgap, ?_, ?_, ?_, ?_, ?_⟩ <;>
      simp [next_of_spelled pos hgap hw hend, hw.ne_nil, hw.ne_endOfInput, Position.after_append]

/-- The call that reads the end token reads all that is left. -/
theorem Call.rest_eq_gap {l : Lexer} {gap : List Char} (hcall : l.Call gap)
    (h : l.next.1.kind = .endOfInput) : l.rest = gap := by
  rw [hcall.rest, hcall.literal.mpr h, hcall.rest_of_end h]
  simp

def afterCalls (l : Lexer) : Nat → Lexer
  | 0 => l
  | n + 1 => l.next.2.afterCalls n

/-- The token of call `n`, counted from 0. -/
def token (l : Lexer) (n : Nat) : Token := (l.afterCalls n).next.1

variable {l : Lexer}

@[simp] theorem afterCalls_zero : l.afterCalls 0 = l := rfl

theorem afterCalls_add (l : Lexer) (m n : Nat) :
    l.afterCalls (m + n) = (l.afterCalls m).afterCalls n := by
  induction m generalizing l with
  | zero => rw [Nat.zero_add, afterCalls_zero]
  | succ m ih => rw [Nat.succ_add, afterCalls, afterCalls, ih]

theorem afterCalls_succ (l : Lexer) (n : Nat) : l.afterCalls (n + 1) = (l.afterCalls n).next.2 :=
  afterCalls_add l n 1

theorem token_add (l : Lexer) (m n : Nat) : l.token (m + n) = (l.afterCalls m).token n := by
  rw [token, afterCalls_add]
  rfl

/-! ## The end -/

/-- The end token is read again and again. -/
theorem next_of_end (h : l.next.1.kind = .endOfInput) : l.next.2.next = l.next := by
  obtain ⟨cs, pos⟩ := l
  cases begins cs with
  | blank hgap =>
    rw [next_of_blanks pos hgap]
    exact next_of_blanks _ (List.forall_mem_nil _)
  | token hgap hw hend =>
    rw [next_of_spelled pos hgap hw hend] at h
    exact absurd h hw.ne_endOfInput

theorem token_of_end (h : l.next.1.kind = .endOfInput) (n : Nat) : l.token n = l.next.1 := by
  have hnext : ∀ n, (l.afterCalls n).next = l.next := by
    intro n
    induction n with
    | zero => rfl
    | succ n ih =>
      rw [afterCalls_succ, ih]
      exact next_of_end h
  rw [token, hnext]

theorem token_ne_end_of_le {m n : Nat} (h : (l.token n).kind ≠ .endOfInput) (hmn : m ≤ n) :
    (l.token m).kind ≠ .endOfInput := by
  obtain ⟨k, rfl⟩ := Nat.exists_eq_add_of_le hmn
  intro hend
  rw [token_add, token_of_end hend] at h
  exact h hend

/-! ## All tokens -/

theorem tokensOnto_toList (l : Lexer) (acc : Array Token) :
    (l.tokensOnto acc).toList = acc.toList ++ l.tokens := by
  have key : ∀ (l : Lexer) (acc : Array Token), ∃ ts, ∀ acc' : Array Token,
      (l.tokensOnto acc').toList = acc'.toList ++ ts := by
    intro l acc
    fun_induction tokensOnto l acc with
    | case1 l acc h => exact ⟨[l.next.1], fun acc' => by rw [tokensOnto, dif_pos h]; simp⟩
    | case2 l acc h ih =>
      obtain ⟨ts, hts⟩ := ih
      exact ⟨l.next.1 :: ts, fun acc' => by rw [tokensOnto, dif_neg h, hts]; simp⟩
  obtain ⟨ts, h⟩ := key l acc
  simp [tokens, h]

theorem tokens_of_end (h : l.next.1.kind = .endOfInput) : l.tokens = [l.next.1] := by
  rw [tokens, tokensOnto, dif_pos h]
  rfl

theorem tokens_of_ne (h : l.next.1.kind ≠ .endOfInput) :
    l.tokens = l.next.1 :: l.next.2.tokens := by
  rw [tokens, tokensOnto, dif_neg h, tokensOnto_toList]
  rfl

theorem exists_tokens_eq (l : Lexer) : ∃ ts, l.tokens = l.next.1 :: ts := by
  by_cases h : l.next.1.kind = .endOfInput
  · exact ⟨[], tokens_of_end h⟩
  · exact ⟨_, tokens_of_ne h⟩

theorem tokens_ne_nil (l : Lexer) : l.tokens ≠ [] := by
  obtain ⟨ts, h⟩ := l.exists_tokens_eq
  simp [h]

/-- A fact about lexers holds if it holds at the end, and before a token if it holds after it. -/
theorem induct {motive : Lexer → Prop}
    (stop : ∀ l : Lexer, l.next.1.kind = .endOfInput → motive l)
    (more : ∀ l : Lexer, l.next.1.kind ≠ .endOfInput → motive l.next.2 → motive l) (l : Lexer) :
    motive l := by
  by_cases h : l.next.1.kind = .endOfInput
  · exact stop l h
  · exact more l h (induct stop more l.next.2)
termination_by l.rest.length
decreasing_by exact next_shrinks l h

/-- Token `n` of all tokens, where the last of them, the end token, goes on for ever. -/
def stream (l : Lexer) (n : Nat) : Token := l.tokens[n]?.getD (l.tokens.getLast l.tokens_ne_nil)

/-- The stream is what is read call after call. -/
theorem stream_eq_token (l : Lexer) (n : Nat) : l.stream n = l.token n := by
  induction l using induct generalizing n with
  | stop l h =>
    simp only [stream, tokens_of_end h, token_of_end h]
    cases n <;> simp
  | more l h ih =>
    cases n with
    | zero =>
      obtain ⟨ts, hts⟩ := l.exists_tokens_eq
      simp [stream, hts, token]
    | succ n =>
      have hlast := List.getLast_cons (a := l.next.1) l.next.2.tokens_ne_nil
      refine Eq.trans ?_ (ih n)
      simp only [stream, tokens_of_ne h, hlast, List.getElem?_cons_succ]

theorem token_eq_of_tokens {l' : Lexer} (h : l.tokens = l'.tokens) (n : Nat) :
    l.token n = l'.token n := by
  rw [← stream_eq_token, ← stream_eq_token]
  simp only [stream, h]

/-- What is left of all tokens after some calls, none of which has given the end token. -/
theorem tokens_afterCalls {n : Nat} (h : n < l.tokens.length) :
    (l.afterCalls n).tokens = l.tokens.drop n := by
  induction n generalizing l with
  | zero => rfl
  | succ n ih =>
    by_cases hend : l.next.1.kind = .endOfInput
    · simp [tokens_of_end hend] at h
    · rw [tokens_of_ne hend] at h ⊢
      exact ih (Nat.lt_of_succ_lt_succ h)

end Lexer

end Guardedness
