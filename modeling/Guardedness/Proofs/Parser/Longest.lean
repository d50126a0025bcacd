import Guardedness.Proofs.Lexer.Seam
import Guardedness.Proofs.Parser.Moves
import Guardedness.Proofs.Parser.Refusal

/-!
# The longest term at the start of a text

A text may go on after the term that it starts with. What follows the term does not count then, so
it matters that it could not have belonged to it.

The parser has only looked at the token behind the term to see that it is no operator
(`Parser.Course.before`), and the end token is none. So the text that is cut there
(`Parser.Passes.cut`) is that term. With one token more, what the parser has read does not begin any
text with a tree (`Parser.Passes.not_accepted`).
-/

namespace Guardedness

/-! ## Cutting a text behind a token -/

namespace Parser

variable {l : Lexer} {p q : Parser} {ts : List Token} {t : SyntaxTree}

/-- A text that is cut behind some tokens has these tokens and the end token. -/
theorem Passes.cut (h : Passes (.ofLexer l) ts q) : ∃ front,
    l.rest = front ++ (l.afterCalls ts.length).rest ∧
      Passes (.ofLexer ⟨front, l.position⟩) ts
        (.ofLexer ⟨[], (l.afterCalls ts.length).position⟩) := by
  obtain ⟨front, hfront, hread⟩ := Lexer.exists_front ts.length h.token_ne_end
  obtain ⟨hcalls, htokens⟩ := hread [] (.inr noLetter_nil)
  have hpass := h.of_tokens htokens
  rw [hcalls, List.append_nil] at hpass
  exact ⟨front, hfront, hpass⟩

end Parser

/-! ## The term that a text starts with -/

/-- The text `s` starts with the tree `t`, which is its first `k` tokens, and the token `x` is
next. -/
structure Starts (s : String) (t : SyntaxTree) (k : Nat) (x : Token) : Prop where
  pos : 0 < k
  next : (Lexer.ofText s).tokens[k]? = some x
  parser : (Parser.ofText s).term.2 = .ofLexer ((Lexer.ofText s).afterCalls k)
  cut : ∃ front rest, s = front ++ rest ∧
    front.utf8ByteSize = ((Lexer.ofText s).token (k - 1)).span.stop ∧
    (Lexer.ofText front).tokens.dropLast = (Lexer.ofText s).tokens.take k ∧
    SyntaxTree.ofText front = .ok t
  longest : x.kind ≠ .endOfInput →
    ∀ w, ¬Accepted ((Lexer.ofText s).spellings.take (k + 1) ++ w)
  whole : SyntaxTree.ofText s = if x.kind = .endOfInput then .ok t else .error (.trailing x)

namespace Parser

variable {s : String} {q : Parser} {ts : List Token} {t : SyntaxTree}

theorem Passes.exists_cut (h : Passes (.ofText s) ts q) (hne : ts ≠ []) : ∃ front rest,
    s = front ++ rest ∧
      front.utf8ByteSize = ((Lexer.ofText s).token (ts.length - 1)).span.stop ∧
      ∃ q', Passes (.ofText front) ts q' ∧ q'.current.kind = .endOfInput := by
  obtain ⟨front, htext, hpass⟩ := h.cut
  obtain ⟨before, hbefore⟩ := (Lexer.standsBehind_ofText s).afterCalls ts.length
  have htext : s.toList = front ++ ((Lexer.ofText s).afterCalls ts.length).rest := htext
  obtain rfl : front = before := List.append_cancel_right (htext.symm.trans hbefore.text)
  obtain ⟨k, hk⟩ : ∃ k, ts.length = k + 1 := Nat.exists_eq_succ_of_ne_zero (by simpa using hne)
  refine ⟨String.ofList front, String.ofList ((Lexer.ofText s).afterCalls ts.length).rest, ?_, ?_,
    .ofLexer ⟨[], ((Lexer.ofText s).afterCalls ts.length).position⟩, ?_, rfl⟩
  · rw [← String.ofList_append, ← htext, String.ofList_toList]
  · rw [← hbefore.behind.offset, hk]
    exact Lexer.offset_afterCalls_succ s k
  · rw [ofText, Lexer.ofText, String.toList_ofList]
    exact hpass

end Parser

/-- What is made of the first term of a text if the text has to end with it. -/
theorem ofText_eq {s : String} {answer : Except ParseError SyntaxTree} {q : Parser}
    (h : (Parser.ofText s).term = (answer, q)) :
    SyntaxTree.ofText s = answer.bind fun t =>
      if q.current.kind = .endOfInput then .ok t else .error (.trailing q.current) := by
  rw [SyntaxTree.ofText, Parser.wholeTerm_eq h]
  simp only [Parser.atEnd, beq_iff_eq]

/-- A text that starts with a tree starts with it in this way. -/
theorem exists_starts {s : String} {t : SyntaxTree} (h : SyntaxTree.ofTextStart s = .ok t) :
    ∃ k x, Starts s t k x := by
  have hterm : (Parser.ofText s).term = (.ok t, (Parser.ofText s).term.2) := Prod.ext h rfl
  obtain ⟨ts, passes, course⟩ := Parser.exists_course hterm
  obtain ⟨ts', passes', -, hstop⟩ := (Parser.ofText s).outcome_wholeTerm
  rw [Parser.wholeTerm_snd] at passes' hstop
  generalize hq : (Parser.ofText s).term.2 = q at *
  obtain rfl := passes.unique passes'
  obtain ⟨hparser, hnext⟩ := Parser.Passes.eq_afterCalls passes
  obtain ⟨front, rest, hs, hsize, q', hcut, hend⟩ := passes.exists_cut course.ne_nil
  have hfront : (Parser.ofText front).term = (.ok t, q') :=
    (course.before (by rw [hend]; rfl)).run_eq hcut rfl
  refine ⟨ts.length, q.current, List.length_pos_iff.mpr course.ne_nil, hnext, hq.trans hparser,
    ⟨front, rest, hs, hsize, ?_, ?_⟩, ?_, ?_⟩
  · rw [Lexer.dropLast_tokens, Parser.Passes.take_tokens passes]
    exact hcut.ahead_eq.trans (by rw [Parser.ahead_of_end hend, List.append_nil])
  · rw [ofText_eq hfront, hend]
    rfl
  · exact Parser.Passes.not_accepted passes hstop
  · exact ofText_eq hterm

/-- **A text that starts with a term starts with the longest one: cut behind it, the text is that
term, and with one token more it begins no text that is one. So a text that has to end with its term
is either this term, or refused at the token behind it. A text that starts with no term is refused
for the same reason whether it has to end with one or not.** -/
theorem starts_with_longest (s : String) :
    (∀ t, SyntaxTree.ofTextStart s = .ok t → ∃ k x, Starts s t k x) ∧
    ∀ e, SyntaxTree.ofTextStart s = .error e → SyntaxTree.ofText s = .error e := by
  refine ⟨fun _ => exists_starts, ?_⟩
  intro e h
  exact ofText_eq (q := (Parser.ofText s).term.2) (Prod.ext h rfl)

/-- The text `nil + a` starts with `nil`, behind which no operator can stand, and the text `rec x`
starts with no term. -/
theorem starts_with_longest_of_nil :
    (∃ k x, Starts "nil + a" .nil k x) ∧
      SyntaxTree.ofText "rec x" = .error (.endOfInput .recDot) := by
  refine ⟨(starts_with_longest "nil + a").1 .nil ?_, (starts_with_longest "rec x").2 _ ?_⟩
  · cbv
  · cbv

end Guardedness
