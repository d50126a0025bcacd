import Guardedness.Parser
import Guardedness.Proofs.Lexer.Front

/-!
# What a parser sees of a text

A parser that has not gone past its tokens is one that starts at the text that is left
(`Parser.Sees`). What its current token is and what it sees next depends on the front of that text:
a blank makes no difference, a punctuation character is a token, and so is a run of letters that no
letter follows.
-/

namespace Guardedness

namespace Parser

/-- The text that is left begins at the current token and is `cs`. -/
def Sees (p : Parser) (cs : List Char) : Prop := ∃ pos, p = ofLexer ⟨cs, pos⟩

variable {p : Parser} {c : Char} {cs w : List Char} {k : Token.Kind}

theorem sees_ofText (s : String) : (ofText s).Sees s.toList := ⟨.start, rfl⟩

theorem Sees.kind_nil (h : p.Sees []) : p.current.kind = .endOfInput := by
  obtain ⟨pos, rfl⟩ := h
  rfl

theorem Sees.blank (h : p.Sees (c :: cs)) (hc : isBlank c = true) : p.Sees cs := by
  obtain ⟨pos, rfl⟩ := h
  exact ⟨pos.next c, by rw [ofLexer, ofLexer, Lexer.next_blank hc]⟩

theorem Sees.spelled (h : p.Sees (w ++ cs)) (hw : Spelled k w)
    (hcs : k.isWord = true → NoLetter cs) :
    p.current.kind = k ∧ p.current.literal = String.ofList w ∧ p.advance.Sees cs := by
  obtain ⟨pos, rfl⟩ := h
  have hnext := Lexer.next_of_spelled pos (List.forall_mem_nil _) hw hcs
  rw [List.nil_append] at hnext
  have hadvance : (ofLexer ⟨w ++ cs, pos⟩).advance = ofLexer (Lexer.next ⟨w ++ cs, pos⟩).2 := rfl
  rw [hadvance, ofLexer, hnext]
  exact ⟨rfl, rfl, _, rfl⟩

theorem Sees.symbol (h : p.Sees (c :: cs)) (hk : Token.Kind.ofSymbol? c = some k) :
    p.current.kind = k ∧ p.advance.Sees cs := by
  obtain ⟨hkind, -, hnext⟩ := Sees.spelled (w := [c]) h (.symbol hk)
    fun hword => by rw [(kind_of_symbol hk).1] at hword; cases hword
  exact ⟨hkind, hnext⟩

/-- A run of letters that no letter follows is a token. -/
theorem Sees.letters (h : p.Sees (w ++ cs)) (hne : w ≠ []) (hw : ∀ c ∈ w, c.isAlpha = true)
    (hcs : NoLetter cs) :
    p.current.kind = .ofWord (String.ofList w) ∧ p.current.literal = String.ofList w ∧
      p.advance.Sees cs :=
  h.spelled (.word hne hw) fun _ => hcs

theorem Sees.word {x : String} (h : p.Sees (x.toList ++ cs)) (hx : IsWord x) (hcs : NoLetter cs) :
    p.current.kind = .identifier ∧ p.current.literal = x ∧ p.advance.Sees cs := by
  have hne : x.toList ≠ [] := by simpa using hx.ne_empty
  obtain ⟨hkind, hliteral, hnext⟩ := h.letters hne hx.letters hcs
  rw [String.ofList_toList] at hkind hliteral
  exact ⟨hkind.trans (Token.Kind.ofWord_eq_identifier.mpr ⟨hx.ne_nil, hx.ne_rec⟩), hliteral, hnext⟩

end Parser

end Guardedness
