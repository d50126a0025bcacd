import Guardedness.Proofs.Check.Progress
import Guardedness.Proofs.Check.Scope
import Guardedness.Proofs.Parser.Longest
import Guardedness.Verdict

/-!
# The verdict

A text is read, and what is read is checked. Reading may fail. Checking what was read may not, since
every node of a tree has the children that its kind needs: so the verdict is an error just when
reading gives one, and otherwise it is what the definition of guardedness says of the tree
(`verdict_eq`).

What an answer is about is a sentence of the grammar with which the tokens of the text begin, or all
of them if it has to end there (`HoldsSentence.of_read`).
-/

namespace Guardedness

/-- The tokens of a text begin with a sentence, and are one if the text has to end with it. -/
def HoldsSentence (settings : ReadSettings) (source : String) : Prop :=
  ∃ ts rest, (Lexer.ofText source).tokens.dropLast = ts ++ rest ∧
    Grammar.Sentence (ts.map Token.kind) ∧ (settings.toEnd = true → rest = [])

variable {s : String} {t : SyntaxTree}

/-! ## What is read -/

theorem sentence_of_ofText (h : SyntaxTree.ofText s = .ok t) :
    Grammar.Sentence ((Lexer.ofText s).tokens.dropLast.map Token.kind) := by
  have sentence := (exists_tree_iff s).mp ⟨t, h⟩
  rwa [Lexer.spellings, Parser.map_fst_spelling] at sentence

theorem HoldsSentence.of_read {settings : ReadSettings}
    (h : SyntaxTree.ofTextUnder settings s = .ok t) : HoldsSentence settings s := by
  unfold SyntaxTree.ofTextUnder at h
  split at h
  · exact ⟨_, [], (List.append_nil _).symm, sentence_of_ofText h, fun _ => rfl⟩
  · next hstart =>
    obtain ⟨k, x, starts⟩ := exists_starts h
    obtain ⟨front, rest, -, -, htokens, hfront⟩ := starts.cut
    have hk := (List.getElem?_eq_some_iff.mp starts.next).1
    have hread : (Lexer.ofText s).tokens.take k = (Lexer.ofText s).tokens.dropLast.take k := by
      rw [List.dropLast_eq_take, List.take_take, Nat.min_eq_left (Nat.le_sub_one_of_lt hk)]
    refine ⟨_, _, (List.take_append_drop k _).symm, ?_, fun hend => absurd hend hstart⟩
    rw [← hread, ← htokens]
    exact sentence_of_ofText hfront

/-! ## The verdict -/

/-- The verdict in one line: what is read, or what the definition says of it. -/
theorem verdict_eq (settings : Settings) (schedule : Schedule) (source : String) :
    verdict settings schedule source =
      match SyntaxTree.ofTextUnder settings.read source with
      | .error e => .error (.parse e)
      | .ok t => .ok (t.proc.guarded ∅) := by
  unfold verdict
  cases SyntaxTree.ofTextUnder settings.read source with
  | error e => rfl
  | ok t => exact congrArg (·.mapError Error.check) (Proc.checkUnder_eq settings.check schedule ∅ _)

/-- **The verdict on a text is the error of reading it, if there is one, and otherwise whether the
tree that was read is guarded, which is also what tasks come to that are left to run in any order.
The check itself never fails. So settings that agree on whether a text has to end with its term give
the same verdict on every text, and no text that holds no sentence is given an answer.** -/
theorem verdict_contract (source : String) :
    (∀ settings schedule,
      (∀ e, verdict settings schedule source = .error (.parse e) ↔
        SyntaxTree.ofTextUnder settings.read source = .error e) ∧
      (∀ t, SyntaxTree.ofTextUnder settings.read source = .ok t →
        verdict settings schedule source = .ok (t.proc.guarded ∅) ∧
        ∀ hasty s, Tasks.Reachable hasty ∅ t.proc s → s.Quiet →
          s.received = some (.ok (t.proc.guarded ∅))) ∧
      (∀ e, verdict settings schedule source ≠ .error (.check e)) ∧
      ∀ b, verdict settings schedule source = .ok b → HoldsSentence settings.read source) ∧
    ∀ settings settings' schedule schedule', settings.read.toEnd = settings'.read.toEnd →
      verdict settings schedule source = verdict settings' schedule' source := by
  refine ⟨?_, ?_⟩
  · intro settings schedule
    rw [verdict_eq]
    cases h : SyntaxTree.ofTextUnder settings.read source with
    | error e => simp
    | ok t =>
      refine ⟨by simp, ?_, by simp, fun _ _ => .of_read h⟩
      rintro _ ⟨⟩
      exact ⟨rfl, fun hasty s reachable quiet => reachable.sound.received_of_quiet quiet⟩
  · intro settings settings' schedule schedule' hend
    have hread : SyntaxTree.ofTextUnder settings.read source =
        SyntaxTree.ofTextUnder settings'.read source := by
      rw [SyntaxTree.ofTextUnder, SyntaxTree.ofTextUnder, hend]
    rw [verdict_eq, verdict_eq, hread]

/-- The text `a b` may go on after its term, and then the answer is *yes* however it is checked. If
it may not, the verdict is an error. -/
theorem verdict_contract_of_trailing :
    verdict {} default "a b" = .ok true ∧
      verdict ⟨{}, ⟨.worklist, true⟩⟩ default "a b" = .ok true ∧
      verdict ⟨⟨true⟩, {}⟩ default "a b" =
        .error (.parse (.trailing ⟨.identifier, "b", ⟨2, 3, 1, 3⟩⟩)) := by
  have hstart : SyntaxTree.ofTextUnder {} "a b" = .ok (.var ⟨"a", ⟨0, 1, 1, 1⟩⟩) := by cbv
  have hwhole : SyntaxTree.ofTextUnder ⟨true⟩ "a b" =
      .error (.trailing ⟨.identifier, "b", ⟨2, 3, 1, 3⟩⟩) := by cbv
  obtain ⟨verdicts, same⟩ := verdict_contract "a b"
  have hguarded : (SyntaxTree.proc (.var ⟨"a", ⟨0, 1, 1, 1⟩⟩)).guarded ∅ = true := by cbv
  have yes := ((verdicts {} default).2.1 _ hstart).1
  rw [hguarded] at yes
  refine ⟨yes, ?_, ?_⟩
  · exact (same ⟨{}, ⟨.worklist, true⟩⟩ {} default default rfl).trans yes
  · exact ((verdicts ⟨⟨true⟩, {}⟩ default).1 _).mpr hwhole

end Guardedness
