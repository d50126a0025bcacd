import Guardedness.Proofs.Parser.Session
import Guardedness.Proofs.Verdict

/-!
# Input that is ignored

A parser that has read a term, or has failed to, stops at a token. It has looked further than that:
it holds the next token as well, and its lexer stands behind both. All this is without consequences.

Two texts that have the same tokens up to the one at which the parser of the first one stops are
read alike (`ReadsAlike`): the two parsers make the same moves, and differ at most in the token that
is held back and in the lexer. So a text can go on in any way behind that token
(`Lexer.token_of_front`), except that a word there must not become a longer one.
-/

namespace Guardedness

/-- The text `s'` starts with the same tree as `s`, or is refused for the same reason, at the same
token. -/
structure ReadsAlike (s s' : String) : Prop where
  answer : SyntaxTree.ofTextStart s' = SyntaxTree.ofTextStart s
  stop : (Parser.ofText s').term.2.current = (Parser.ofText s).term.2.current
  verdict : ∀ settings schedule schedule', settings.read.toEnd = false →
    verdict settings schedule s' = verdict settings schedule' s

variable {s s' : String} {k : Nat}

theorem verdict_eq_of_answer (h : SyntaxTree.ofTextStart s' = SyntaxTree.ofTextStart s)
    (settings : Settings) (schedule schedule' : Schedule) (hend : settings.read.toEnd = false) :
    verdict settings schedule s' = verdict settings schedule' s := by
  have hread (source : String) :
      SyntaxTree.ofTextUnder settings.read source = SyntaxTree.ofTextStart source := by
    rw [SyntaxTree.ofTextUnder, hend]
    rfl
  rw [verdict_eq, verdict_eq, hread, hread, h]

theorem exists_stop (s : String) : ∃ ts, Parser.Passes (.ofText s) ts (Parser.ofText s).term.2 ∧
    (Parser.ofText s).term.2.current = (Lexer.ofText s).token ts.length ∧
    ts.length < (Lexer.ofText s).tokens.length ∧
    ∀ p q, Parser.Passes p ts q → q.current = (Parser.ofText s).term.2.current →
      p.term = ((Parser.ofText s).term.1, q) := by
  obtain ⟨ts, passes, -, same⟩ := Parser.Request.term.exists_passes (.ofText s)
  obtain ⟨hq, htoken⟩ := passes.eq_afterCalls
  exact ⟨ts, passes, congrArg Parser.current hq, (List.getElem?_eq_some_iff.mp htoken).1, same⟩

/-- Texts are read alike if they have the same tokens up to the one at which reading stops. -/
theorem readsAlike_of_tokens (hk : (Parser.ofText s).term.2.current = (Lexer.ofText s).token k)
    (agree : ∀ i ≤ k, (Lexer.ofText s').token i = (Lexer.ofText s).token i) : ReadsAlike s s' := by
  obtain ⟨ts, passes, hcurrent, -, same⟩ := exists_stop s
  -- No token but the end token occurs twice, so that the parser cannot have read past token `k`.
  have hle : ts.length ≤ k := by
    by_contra hlt
    have hlt := Nat.lt_of_not_le hlt
    exact Lexer.token_ne_of_lt hlt (passes.token_ne_end k hlt) (hk.symm.trans hcurrent)
  have hpass := passes.of_tokens fun i hi => agree i (Nat.le_trans (Nat.le_of_lt hi) hle)
  have hstop : (Lexer.ofText s').token ts.length = (Parser.ofText s).term.2.current := by
    rw [agree _ hle, hcurrent]
  have hterm : (Parser.ofText s').term = _ := same _ _ hpass hstop
  have hanswer : SyntaxTree.ofTextStart s' = SyntaxTree.ofTextStart s := by
    rw [SyntaxTree.ofTextStart, hterm]
    rfl
  refine ⟨hanswer, ?_, verdict_eq_of_answer hanswer⟩
  rw [hterm]
  exact hstop

/-- **A parser that reads a term from a text stops at one of its tokens. Another text with the same
tokens up to that one is read to the same tree with the same places, or to the same error. The
verdict is the same then, unless texts have to end with their terms. In particular the text can go
on in any other way behind the token at which the parser stops, as long as no letter meets a letter
there.** -/
theorem ignored_input (s : String) :
    (∃ k < (Lexer.ofText s).tokens.length,
      (Parser.ofText s).term.2.current = (Lexer.ofText s).stream k) ∧
    (∀ k, (Parser.ofText s).term.2.current = (Lexer.ofText s).stream k →
      ∀ s', (∀ i ≤ k, (Lexer.ofText s').stream i = (Lexer.ofText s).stream i) →
        ReadsAlike s s') ∧
    ∀ front back back', s = front ++ back →
      (Parser.ofText s).term.2.current.kind ≠ .endOfInput →
      front.utf8ByteSize = (Parser.ofText s).term.2.current.span.stop →
      ¬LettersMeet front back' → ReadsAlike s (front ++ back') := by
  simp only [Lexer.stream_eq_token]
  obtain ⟨ts, -, hcurrent, hlength, -⟩ := exists_stop s
  refine ⟨⟨ts.length, hlength, hcurrent⟩, fun k hk s' agree => readsAlike_of_tokens hk agree, ?_⟩
  intro front back back' hs hkind hsize hseam
  subst hs
  refine readsAlike_of_tokens hcurrent ?_
  rw [hcurrent] at hkind hsize
  exact fun i hi => Lexer.token_of_front hkind hsize hseam hi

/-- In `nil + rec x. x` nothing behind `+` is read. Behind `+` there may as well be a text that is
malformed, and the verdict is the same; the text may also go on right behind `+`. -/
theorem ignored_input_of_sum :
    verdict {} default "nil + ) $" = verdict {} default "nil + rec x. x" ∧
      SyntaxTree.ofTextStart "nil +(" = SyntaxTree.ofTextStart "nil + rec x. x" := by
  have hstop : (Parser.ofText "nil + rec x. x").term.2.current = ⟨.plus, "+", ⟨4, 5, 1, 5⟩⟩ := by cbv
  obtain ⟨-, stream, front⟩ := ignored_input "nil + rec x. x"
  refine ⟨?_, ?_⟩
  · refine (stream 1 (by rw [hstop]; cbv) "nil + ) $" ?_).verdict {} default default rfl
    intro i hi
    interval_cases i
    · cbv
    · cbv
  · refine (front "nil +" " rec x. x" "(" rfl ?_ ?_ ?_).answer
    · rw [hstop]
      decide
    · rw [hstop]
      rfl
    · simp [LettersMeet]

end Guardedness
