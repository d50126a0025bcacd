import Guardedness.Proofs.Lexer.Spellings
import Guardedness.Proofs.Parser.Moves
import Guardedness.Proofs.SyntaxTree

/-!
# The names of what is read

A tree that is read from a text has the names that its identifiers spell, and these are words. No
move makes up a name: one that is in hand or on the stack after it was so before, or is that of an
identifier it has read (`Move.known`). So the names of a term are those of the identifiers among its
tokens (`Course.known`).
-/

namespace Guardedness

namespace Parser

def Frame.names : Frame → List Ident
  | paren => []
  | fix x => [x]
  | act a => [a]
  | sum p | par p => p.names

/-- The names in hand. -/
def Phase.names : Phase → List Ident
  | operand => []
  | operators t action => t.names ++ action.toList
  | close t => t.names

/-- A name in hand or on the stack, or that of an identifier among some tokens. -/
def Known (phase : Phase) (stack : List Frame) (us : List Token) (y : Ident) : Prop :=
  y ∈ phase.names ∨ (∃ f ∈ stack, y ∈ f.names) ∨ ∃ a ∈ us, a.kind = .identifier ∧ y = .ofToken a

variable {phase phase' : Phase} {stack stack' : List Frame} {us ts : List Token} {x : Token}
  {t : SyntaxTree} {y : Ident} {l : Lexer} {q : Parser}

theorem Move.known (h : Move phase stack us x phase' stack') (hy : Known phase' stack' ts y) :
    Known phase stack (us ++ ts) y := by
  unfold Known at hy ⊢
  -- What a move opens or closes passes its names between the phase and the stack.
  cases h <;> simp_all [Phase.names, Frame.names, Term.names] <;> grind

/-- The names of a term are known before it is read, or are read with it. -/
theorem Course.known (h : Course phase stack ts x (.ok t)) (hy : y ∈ t.names) :
    Known phase stack ts y := by
  generalize ha : Except.ok t = answer at h
  induction h with
  | done =>
    cases ha
    exact .inl hy
  | fails => cases ha
  | move move _ ih => exact move.known (ih ha)

theorem Passes.isWord (h : Passes (.ofLexer l) ts q) {a : Token} (ha : a ∈ ts)
    (hk : a.kind = .identifier) : IsWord a.literal := by
  have hmem : a.spelling ∈ l.spellings := by
    rw [Lexer.spellings, Lexer.dropLast_tokens, h.ahead_eq]
    exact List.mem_map_of_mem (List.mem_append_left _ ha)
  have hspelled : Spelled a.kind a.literal.toList := l.spelled_spellings _ hmem
  rw [hk] at hspelled
  simpa using hspelled.isWord

/-- The names of what a parser of a text reads are words. -/
theorem isWord_of_term (h : (ofLexer l).term = (.ok t, q)) (hy : y ∈ t.names) : IsWord y.name := by
  obtain ⟨ts, hpass, course⟩ := exists_course h
  obtain hphase | ⟨f, hf, -⟩ | ⟨a, ha, hk, rfl⟩ := course.known hy
  · cases hphase
  · cases hf
  · exact hpass.isWord ha hk

end Parser

end Guardedness
