import Guardedness.Proofs.Parser.Names
import Guardedness.Proofs.Parser.Session
import Guardedness.Proofs.Parser.Writing

/-!
# Reading loses nothing

A parser builds a tree from the inside out, and wraps what it has read again and again while it
reads on. All the same, every token that it takes for a term is found in the tree, once and where it
belongs (`Parser.Conserves`), because a derivation writes its tree.

A parser is made of a lexer that may have been called before, and may have been asked for terms
before. It starts at some token of the text nevertheless (`Parser.exists_after_eq`), and reads the
tokens of the text from there on (`Parser.ReadFrom`).
-/

namespace Guardedness

theorem Lexer.extract_token (s : String) (n : Nat) :
    s.toUTF8.extract ((ofText s).token n).span.start ((ofText s).token n).span.stop =
      ((ofText s).token n).literal.toUTF8 := by
  obtain ⟨before, h⟩ := (standsBehind_ofText s).afterCalls n
  obtain ⟨gap, hcall⟩ := exists_call ((ofText s).afterCalls n)
  exact (h.next hcall).1.extract_bytes

namespace Parser

open Grammar (bare Nested Written)

/-- The tokens are those of the tree, with parentheses between them. -/
structure Conserves (ts : List Token) (t : SyntaxTree) : Prop where
  terminals : bare (ts.map Token.terminal) = t.terminals
  part : ∀ u before behind, Term.Occurs u t before behind → ∃ front own back,
    ts = front ++ own ++ back ∧ bare (front.map Token.terminal) = before ∧
      bare (own.map Token.terminal) = u.terminals ∧ bare (back.map Token.terminal) = behind ∧
      Nested (own.map Token.terminal)

/-- Between `p` and `q` the tokens `ts` of the text `s` are read for the tree `t`. -/
structure ReadFrom (s : String) (ts : List Token) (t : SyntaxTree) (p q : Parser) : Prop where
  tokens : ∃ n, p = .ofLexer ((Lexer.ofText s).afterCalls n) ∧
    q = .ofLexer ((Lexer.ofText s).afterCalls (n + ts.length)) ∧
    ∀ i x, ts[i]? = some x → x = (Lexer.ofText s).token (n + i)
  names : ∀ x ∈ t.names, s.toUTF8.extract x.span.start x.span.stop = x.name.toUTF8 ∧ IsWord x.name

variable {s : String} {t : SyntaxTree} {ts : List Token} {l : Lexer} {p q : Parser}

/-- What is written for a tree are its tokens. -/
theorem Conserves.of_written (h : Written t (ts.map Token.terminal)) : Conserves ts t := by
  constructor
  · obtain ⟨n, w, hts, hw⟩ := h
    rw [hts, Grammar.bare_parens, hw.bare_eq]
  · intro u before behind hu
    obtain ⟨o, own, c, hts, ⟨n, w, rfl, hw⟩, rfl, rfl⟩ := h.occurs hu
    obtain ⟨rest, back, rfl, hrest, rfl⟩ := List.map_eq_append_iff.mp hts
    obtain ⟨front, own, rfl, rfl, hown⟩ := List.map_eq_append_iff.mp hrest
    refine ⟨front, own, back, rfl, rfl, ?_, rfl, ?_⟩
    · rw [hown, Grammar.bare_parens, hw.bare_eq]
    · rw [hown]
      exact hw.nested.parens n

theorem Passes.eq_token (h : Passes (.ofLexer l) ts q) {i : Nat} {x : Token}
    (hx : ts[i]? = some x) : x = l.token i := by
  have htokens : l.tokens[i]? = some x := by
    rw [← h.take_tokens, List.getElem?_take] at hx
    split at hx
    · exact hx
    · cases hx
  rw [← Lexer.stream_eq_token, Lexer.stream, htokens, Option.getD_some]

/-- Whatever a parser is asked for, it goes on with the same lexer. -/
theorem exists_after_eq (l : Lexer) (requests : List Request) :
    ∃ n, (ofLexer l).after requests = .ofLexer (l.afterCalls n) := by
  induction requests generalizing l with
  | nil => exact ⟨0, rfl⟩
  | cons request requests ih =>
    obtain ⟨ts, passes, -⟩ := request.exists_passes (.ofLexer l)
    obtain ⟨n, hn⟩ := ih (l.afterCalls ts.length)
    refine ⟨ts.length + n, ?_⟩
    rw [Lexer.afterCalls_add, ← hn, ← passes.eq_afterCalls.1]
    rfl

/-- **Reading a term conserves tokens and places. Without the parentheses, the tokens that a parser
takes for a term are those of the tree in order, with each name where it stands, and each part of
the tree has its own tokens together, with their parentheses. If the parser is one of a text, these
are tokens of the text in a row, and the names of the tree are words that their spans cut out of the
text.** -/
theorem term_conserves (h : p.term = (.ok t, q)) : ∃ ts, Passes p ts q ∧ Conserves ts t ∧
    ∀ s calls requests, p = (ofLexer ((Lexer.ofText s).afterCalls calls)).after requests →
      ReadFrom s ts t p q := by
  obtain ⟨ts, passes, course⟩ := exists_course h
  obtain ⟨d, hyield, htree⟩ := course.exists_derivation
  have hwritten : Written t (ts.map Token.terminal) := by
    rw [← hyield, ← htree]
    exact d.written
  refine ⟨ts, passes, .of_written hwritten, ?_⟩
  intro s calls requests hp
  obtain ⟨n, rfl⟩ : ∃ n, p = .ofLexer ((Lexer.ofText s).afterCalls n) := by
    obtain ⟨n, hn⟩ := exists_after_eq ((Lexer.ofText s).afterCalls calls) requests
    exact ⟨calls + n, by rw [hp, hn, Lexer.afterCalls_add]⟩
  have htoken : ∀ i x, ts[i]? = some x → x = (Lexer.ofText s).token (n + i) := by
    intro i x hx
    rw [Lexer.token_add]
    exact passes.eq_token hx
  refine ⟨⟨n, rfl, ?_, htoken⟩, ?_⟩
  · rw [Lexer.afterCalls_add]
    exact passes.eq_afterCalls.1
  · intro x hx
    refine ⟨?_, isWord_of_term h hx⟩
    obtain hphase | ⟨f, hf, -⟩ | ⟨a, ha, -, rfl⟩ := course.known hx
    · cases hphase
    · cases hf
    · obtain ⟨i, hi⟩ := List.getElem?_of_mem ha
      obtain rfl := htoken i a hi
      exact Lexer.extract_token s (n + i)

/-- Behind `nil` in the text `nil (a.x)\b` a restriction is read. The tokens of `a.x` come first,
with the parentheses around them, and then those of the operator. -/
theorem term_conserves_of_parens : ∃ ts q,
    Passes ((ofText "nil (a.x)\\b").after [.term]) ts q ∧
      bare (ts.map Token.terminal) = [.name ⟨"a", ⟨5, 6, 1, 6⟩⟩, .mark .dot,
        .name ⟨"x", ⟨7, 8, 1, 8⟩⟩, .mark .backslash, .name ⟨"b", ⟨10, 11, 1, 11⟩⟩] ∧
      (∃ front own back, ts = front ++ own ++ back ∧ Nested (own.map Token.terminal) ∧
        bare (own.map Token.terminal) =
          [.name ⟨"a", ⟨5, 6, 1, 6⟩⟩, .mark .dot, .name ⟨"x", ⟨7, 8, 1, 8⟩⟩]) ∧
      "nil (a.x)\\b".toUTF8.extract 10 11 = "b".toUTF8 := by
  have hterm : ((ofText "nil (a.x)\\b").after [.term]).term.1 =
      .ok (.res (.act ⟨"a", ⟨5, 6, 1, 6⟩⟩ (.var ⟨"x", ⟨7, 8, 1, 8⟩⟩)) ⟨"b", ⟨10, 11, 1, 11⟩⟩) := by
    cbv
  obtain ⟨ts, passes, conserves, readFrom⟩ := term_conserves (Prod.ext hterm rfl)
  obtain ⟨front, own, back, hts, -, hown, -, hnested⟩ := conserves.part _ _ _ (.left rfl .self)
  refine ⟨ts, _, passes, conserves.terminals, ⟨front, own, back, hts, hnested, hown⟩, ?_⟩
  exact ((readFrom _ 0 [.term] rfl).names ⟨"b", ⟨10, 11, 1, 11⟩⟩ (by simp [Term.names])).1

end Parser

end Guardedness
