import Guardedness.Proofs.Lexer.Seam
import Guardedness.Proofs.Parser.Layout
import Guardedness.Proofs.Verdict

/-!
# Layout

The tokens of a text may stand on one line or on many, with or without blanks between them where
that makes no other tokens of them. None of this is of any consequence, except for the lines and
columns that a message tells and the places that the names of a tree remember
(`sameAnswer_of_spellings`).

Blanks at the end change nothing at all (`read_append_blanks`): the end token is the only one that
they move, and no tree and no message says where it stands.
-/

namespace Guardedness

/-- The error without the place of the token that is refused. -/
def Error.unplaced : Error → Error
  | parse e => .parse e.unplaced
  | e => e

variable {s s' gap : String}

/-! ## Texts of the same spellings -/

theorem ahead_alike_of_spellings
    (h : (Lexer.ofText s).tokens.map Token.spelling = (Lexer.ofText s').tokens.map Token.spelling) :
    (Parser.ofText s).ahead.Forall₂ Token.Alike (Parser.ofText s').ahead := by
  have hahead : (Parser.ofText s).ahead.map Token.spelling =
      (Parser.ofText s').ahead.map Token.spelling := by
    rw [Parser.ofText, Parser.ofText, ← Lexer.dropLast_tokens, ← Lexer.dropLast_tokens,
      List.map_dropLast, List.map_dropLast, h]
  rw [← List.forall₂_eq_eq_eq, List.forall₂_map_left_iff, List.forall₂_map_right_iff] at hahead
  exact hahead

theorem sameAnswer_of_spellings
    (h : (Lexer.ofText s).tokens.map Token.spelling = (Lexer.ofText s').tokens.map Token.spelling) :
    SameAnswer (SyntaxTree.ofText s) (SyntaxTree.ofText s') ∧
      SameAnswer (SyntaxTree.ofTextStart s) (SyntaxTree.ofTextStart s') :=
  ⟨Parser.wholeTerm_alike (ahead_alike_of_spellings h),
    (Parser.term_alike (ahead_alike_of_spellings h)).1⟩

theorem verdict_of_sameAnswer {settings : Settings} {schedule schedule' : Schedule}
    (h : SameAnswer (SyntaxTree.ofTextUnder settings.read s)
      (SyntaxTree.ofTextUnder settings.read s')) :
    (verdict settings schedule s).mapError Error.unplaced =
      (verdict settings schedule' s').mapError Error.unplaced := by
  rw [verdict_eq, verdict_eq]
  generalize SyntaxTree.ofTextUnder settings.read s = answer at h
  generalize SyntaxTree.ofTextUnder settings.read s' = answer' at h
  cases h with
  | ok ht =>
    dsimp only
    rw [SyntaxTree.beq_iff.mp ht]
  | error he => exact congrArg (fun e => (Except.error (.parse e) : Except Error Bool)) he

/-! ## Blanks at the end -/

theorem read_append_blanks (s : String) (hgap : ∀ c ∈ gap.toList, isBlank c = true) :
    SyntaxTree.ofText (s ++ gap) = SyntaxTree.ofText s ∧
      SyntaxTree.ofTextStart (s ++ gap) = SyntaxTree.ofTextStart s := by
  have hahead : (Parser.ofText (s ++ gap)).ahead = (Parser.ofText s).ahead := by
    rw [Parser.ofText, Parser.ofText, ← Lexer.dropLast_tokens, ← Lexer.dropLast_tokens,
      ← Lexer.dropLast_tokens_append (.ofText s) hgap, Lexer.ofText, String.toList_append]
    rfl
  obtain ⟨hterm, hwhole⟩ := Parser.term_eq_of_ahead hahead
  exact ⟨hwhole, hterm⟩

/-- **Two texts with the same tokens, wherever these stand, are read as equal trees or refused for
the same reason, and get the same verdict under all settings; only the places in messages and names
may differ. Blanks at the end of a text do not change even these.** -/
theorem layout_irrelevant :
    (∀ s s', (Lexer.ofText s).tokens.map Token.spelling =
        (Lexer.ofText s').tokens.map Token.spelling →
      SameAnswer (SyntaxTree.ofText s) (SyntaxTree.ofText s') ∧
      SameAnswer (SyntaxTree.ofTextStart s) (SyntaxTree.ofTextStart s') ∧
      ∀ settings schedule schedule', (verdict settings schedule s).mapError Error.unplaced =
        (verdict settings schedule' s').mapError Error.unplaced) ∧
    ∀ s gap : String, (∀ c ∈ gap.toList, isBlank c = true) →
      SyntaxTree.ofText (s ++ gap) = SyntaxTree.ofText s ∧
      SyntaxTree.ofTextStart (s ++ gap) = SyntaxTree.ofTextStart s ∧
      ∀ settings schedule schedule',
        verdict settings schedule (s ++ gap) = verdict settings schedule' s := by
  constructor
  · intro s s' h
    obtain ⟨hwhole, hstart⟩ := sameAnswer_of_spellings h
    refine ⟨hwhole, hstart, fun settings schedule schedule' => verdict_of_sameAnswer ?_⟩
    unfold SyntaxTree.ofTextUnder
    split
    · exact hwhole
    · exact hstart
  · intro s gap hgap
    obtain ⟨hwhole, hstart⟩ := read_append_blanks s hgap
    refine ⟨hwhole, hstart, fun settings schedule schedule' => ?_⟩
    rw [verdict_eq, verdict_eq, SyntaxTree.ofTextUnder, SyntaxTree.ofTextUnder, hwhole, hstart]

/-- In `a)` and ` a` with `)` on the next line the same token is refused, at different places, and a
line feed behind `a b` changes no place. -/
theorem layout_irrelevant_of_trailing :
    SameAnswer (SyntaxTree.ofText "a)") (SyntaxTree.ofText " a\n)") ∧
      SyntaxTree.ofText "a)" = .error (.trailing ⟨.parenClose, ")", ⟨1, 2, 1, 2⟩⟩) ∧
      SyntaxTree.ofText " a\n)" = .error (.trailing ⟨.parenClose, ")", ⟨3, 4, 2, 1⟩⟩) ∧
      verdict ⟨⟨true⟩, {}⟩ default ("a b" ++ "\n") = verdict ⟨⟨true⟩, {}⟩ default "a b" := by
  have hspellings : (Lexer.ofText "a)").tokens.map Token.spelling =
      (Lexer.ofText " a\n)").tokens.map Token.spelling := by
    trans [(.identifier, "a"), (.parenClose, ")"), (.endOfInput, "")]
    · cbv
    · cbv
  refine ⟨(layout_irrelevant.1 "a)" " a\n)" hspellings).1, by cbv, by cbv, ?_⟩
  have hblank : ∀ c ∈ "\n".toList, isBlank c = true := by simp [isBlank]
  exact (layout_irrelevant.2 "a b" "\n" hblank).2.2 _ _ _

end Guardedness
