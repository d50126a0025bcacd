import Guardedness.Proofs.Lexer.Places
import Guardedness.Proofs.Parser.Moves
import Guardedness.Proofs.Parser.Refusal

/-!
# A parser that is asked again and again

A parser outlives what it is asked for. It can be asked for one more term, or for one that the text
ends with, whether or not the last one was there.

**In step** (`Parser.InStep`). There is always a number `n` such that the parser holds tokens `n`
and `n + 1` of its text, and its lexer stands right behind the second. Then it is a parser that
starts at token `n` (`Parser.InStep.eq_ofLexer`), and nothing it has done before makes a difference.

**One request** (`Parser.Answered`). What a parser answers depends on the tokens it reads and the
next one, and on these only (`Parser.Request.exists_passes`).
-/

namespace Guardedness

namespace Parser

/-- What a parser can be asked for. -/
inductive Request where
  | term
  | wholeTerm
deriving DecidableEq, Repr

/-- What a parser answers, and the parser after it. -/
def Request.ask : Request → Parser → Except ParseError SyntaxTree × Parser
  | term => Parser.term
  | wholeTerm => Parser.wholeTerm

/-- A parser after some requests. -/
def after (p : Parser) (requests : List Request) : Parser :=
  requests.foldl (fun p request => (request.ask p).2) p

/-- The parser holds tokens `n` and `n + 1` of the text `s`. -/
structure InStep (s : String) (n : Nat) (p : Parser) : Prop where
  current : p.current = (Lexer.ofText s).stream n
  peek : p.peek = (Lexer.ofText s).stream (n + 1)
  lexer : p.lexer = (Lexer.ofText s).afterCalls (n + 2)
  behind : p.lexer.position.offset = p.peek.span.stop
  lt_length : n < (Lexer.ofText s).tokens.length

/-- What is asked of the parser `p`, which holds token `m`, leaves it with token `n`. -/
structure Answered (s : String) (request : Request) (p : Parser) (m n : Nat) : Prop where
  le : m ≤ n
  lt : ∀ t, (request.ask p).1 = .ok t → m < n
  fresh : ∀ l : Lexer, l.tokens = (Lexer.ofText s).tokens.drop m →
    (request.ask (.ofLexer l)).1 = (request.ask p).1
  named : ∀ e x, (request.ask p).1 = .error e → e.token? = some x → (request.ask p).2.current = x

variable {s : String} {m n : Nat} {p p' q q' : Parser} {ts : List Token} {request : Request}
  {requests : List Request}

/-! ## Where a parser stands -/

theorem ofLexer_afterCalls (l : Lexer) (n : Nat) :
    ofLexer (l.afterCalls n) = ⟨l.token n, l.token (n + 1), l.afterCalls (n + 2)⟩ := by
  simp [ofLexer, Lexer.token, Lexer.afterCalls_succ]

theorem InStep.eq_ofLexer (h : InStep s n p) : p = .ofLexer ((Lexer.ofText s).afterCalls n) := by
  rw [ofLexer_afterCalls, ← Lexer.stream_eq_token, ← Lexer.stream_eq_token, ← h.current, ← h.peek,
    ← h.lexer]

theorem inStep_ofLexer (hn : n < (Lexer.ofText s).tokens.length) :
    InStep s n (.ofLexer ((Lexer.ofText s).afterCalls n)) := by
  rw [ofLexer_afterCalls]
  exact ⟨(Lexer.stream_eq_token ..).symm, (Lexer.stream_eq_token ..).symm, rfl,
    Lexer.offset_afterCalls_succ s (n + 1), hn⟩

/-! ## One request -/

theorem Request.exists_passes (request : Request) (p : Parser) : ∃ ts,
    Passes p ts (request.ask p).2 ∧ (∀ t, (request.ask p).1 = .ok t → ts ≠ []) ∧
      ∀ p' q', Passes p' ts q' → q'.current = (request.ask p).2.current →
        request.ask p' = ((request.ask p).1, q') := by
  obtain ⟨answer, q, hterm⟩ : ∃ answer q, p.term = (answer, q) := ⟨_, _, rfl⟩
  obtain ⟨ts, passes, course⟩ := exists_course hterm
  have term_eq : ∀ p' q', Passes p' ts q' → q'.current = q.current → p'.term = (answer, q') :=
    fun p' q' hpass hcurrent => course.run_eq hpass hcurrent
  refine ⟨ts, ?_⟩
  cases request with
  | term =>
    rw [Request.ask, hterm]
    refine ⟨passes, ?_, term_eq⟩
    rintro t rfl
    exact course.ne_nil
  | wholeTerm =>
    rw [Request.ask, wholeTerm_eq hterm]
    refine ⟨passes, ?_, ?_⟩
    · intro t ht
      cases answer with
      | error e => cases ht
      | ok u => exact course.ne_nil
    · intro p' q' hpass hcurrent
      rw [wholeTerm_eq (term_eq p' q' hpass hcurrent), atEnd, atEnd, hcurrent]

theorem token?_ask (request : Request) (p : Parser) {e : ParseError}
    (h : (request.ask p).1 = .error e) : e.token? = (request.ask p).2.ahead.head? := by
  cases request with
  | term => exact State.token?_run ⟨.operand, [], p⟩ h
  | wholeTerm => exact token?_wholeTerm p h

/-- After an answer the parser is in step again. -/
theorem InStep.exists_answered (h : InStep s m p) (request : Request) :
    ∃ n, InStep s n (request.ask p).2 ∧ Answered s request p m n := by
  obtain rfl := h.eq_ofLexer
  obtain ⟨ts, passes, hpos, same⟩ :=
    request.exists_passes (.ofLexer ((Lexer.ofText s).afterCalls m))
  obtain ⟨hq, htoken⟩ := passes.eq_afterCalls
  rw [← Lexer.afterCalls_add] at hq
  have htokens := Lexer.tokens_afterCalls h.lt_length
  have hlength : m + ts.length < (Lexer.ofText s).tokens.length := by
    have := (List.getElem?_eq_some_iff.mp htoken).1
    rw [htokens, List.length_drop] at this
    omega
  refine ⟨m + ts.length, hq ▸ inStep_ofLexer hlength, Nat.le_add_right _ _, ?_, ?_, ?_⟩
  -- A term takes a token, a fresh parser gives the same answer, and an error names what is current.
  · intro t ht
    have := List.length_pos_iff.mpr (hpos t ht)
    omega
  · intro l hl
    have agree (i : Nat) : l.token i = ((Lexer.ofText s).afterCalls m).token i :=
      Lexer.token_eq_of_tokens (hl.trans htokens.symm) i
    have hcurrent : (Parser.ofLexer (l.afterCalls ts.length)).current = l.token ts.length := rfl
    rw [agree, ← Lexer.token_add] at hcurrent
    have hpass := passes.of_tokens fun i _ => agree i
    rw [same _ _ hpass (by rw [hcurrent, hq]; rfl)]
  · intro e x he hx
    have hahead := (token?_ask request _ he).symm.trans hx
    rw [head?_ahead] at hahead
    split at hahead
    · cases hahead
    · exact Option.some.inj hahead

/-! ## Any number of requests -/

/-- A parser that is in step stays so, whatever it is asked for. -/
theorem InStep.exists_steps (h : InStep s m p) (requests : List Request) : ∃ n : Nat → Nat,
    n 0 = m ∧ (∀ i ≤ requests.length, InStep s (n i) (p.after (requests.take i))) ∧
    ∀ i request, requests[i]? = some request →
      Answered s request (p.after (requests.take i)) (n i) (n (i + 1)) := by
  induction requests generalizing m p with
  | nil =>
    refine ⟨fun _ => m, rfl, ?_, fun i request hi => by simp at hi⟩
    intro i _
    rw [List.take_nil]
    exact h
  | cons request requests ih =>
    obtain ⟨m', h', answered⟩ := h.exists_answered request
    obtain ⟨n, rfl, inStep, rest⟩ := ih h'
    refine ⟨fun i => i.casesOn m n, rfl, ?_, ?_⟩
    · rintro (_ | i) hi
      · exact h
      · exact inStep i (Nat.le_of_succ_le_succ hi)
    · rintro (_ | i) request' hi
      · obtain rfl := Option.some.inj hi
        exact answered
      · exact rest i request' hi

/-- **A parser stays in step with its text, whatever it is asked for and whatever it answers: it
holds two tokens in a row and its lexer stands behind them. It never goes back, never goes past the
first end token, and goes on with every term that it reads. Each answer is that of a parser which
starts with the tokens from the current one on, and the token that an error names stays
current.** -/
theorem stays_in_step (s : String) (requests : List Request) : ∃ n : Nat → Nat, n 0 = 0 ∧
    (∀ i ≤ requests.length, InStep s (n i) ((ofText s).after (requests.take i))) ∧
    ∀ i request, requests[i]? = some request →
      Answered s request ((ofText s).after (requests.take i)) (n i) (n (i + 1)) :=
  (inStep_ofLexer (List.length_pos_iff.mpr (Lexer.tokens_ne_nil _))).exists_steps requests

/-- In `a rec nil` a term is read that the text does not end with, the next one fails at the token
`nil`, and the one after that is read from there. -/
theorem stays_in_step_of_failure : ∃ n : Nat → Nat, n 0 = 0 ∧
    InStep "a rec nil" (n 2) ((ofText "a rec nil").after [.wholeTerm, .term]) ∧
      ((ofText "a rec nil").after [.wholeTerm, .term]).current =
        ⟨.keyword .nilWord, "nil", ⟨6, 9, 1, 7⟩⟩ ∧ n 2 < n 3 := by
  obtain ⟨n, hzero, inStep, answered⟩ := stays_in_step "a rec nil" [.wholeTerm, .term, .term]
  refine ⟨n, hzero, inStep 2 (by decide), ?_, ?_⟩
  · refine (answered 1 .term rfl).named (.unexpected .recName _) _ ?_ rfl
    cbv
  · refine (answered 2 .term rfl).lt .nil ?_
    cbv

end Parser

end Guardedness
