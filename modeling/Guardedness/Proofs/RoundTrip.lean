import Guardedness.Proofs.Parser.Names
import Guardedness.Proofs.Parser.Reading

/-!
# Trees and their texts

The text of a tree reads back as an equal tree just when all of its names are words, so that trees
with such names are told apart by their texts. All trees that come from a text are of that kind:
writing one and reading it back changes nothing any more.
-/

namespace Guardedness

namespace SyntaxTree

variable {s t : SyntaxTree} {src : String}

/-- The text of a tree whose names are words reads back as the tree. -/
theorem ofText_render (ht : ∀ x ∈ t.names, IsWord x.name) :
    ∃ t', ofText t.render = .ok t' ∧ t'.proc = t.proc :=
  (Parser.isRead_of_isWord t ht).closes.exists_ofText

theorem isWord_of_ofTextStart (h : ofTextStart src = .ok t) : ∀ x ∈ t.names, IsWord x.name :=
  fun _ hx => Parser.isWord_of_term (l := .ofText src) (Prod.ext h rfl) hx

theorem ofTextStart_of_ofText (h : ofText src = .ok t) : ofTextStart src = .ok t := by
  rw [ofText, Parser.wholeTerm] at h
  rw [ofTextStart]
  split at h
  · next u q hterm =>
    rw [hterm]
    split at h
    · exact h
    · cases h
  · cases h

/-- **A tree reads back from its text, places aside, just when all of its names are words. So trees
whose names are words have the same text only if they are equal, and a tree that was read from a
text, whole or in front of others, is written as a text that reads back as the tree and is what that
one is written as.** -/
theorem render_reads_back :
    (∀ t : SyntaxTree, (∃ t', ofText t.render = .ok t' ∧ (t' == t) = true) ↔
      ∀ x ∈ t.names, IsWord x.name) ∧
    (∀ s t : SyntaxTree, (∀ x ∈ s.names, IsWord x.name) → (∀ x ∈ t.names, IsWord x.name) →
      s.render = t.render → (s == t) = true) ∧
    ∀ (src : String) (t : SyntaxTree), ofText src = .ok t ∨ ofTextStart src = .ok t →
      ∃ t', ofText t.render = .ok t' ∧ (t' == t) = true ∧ t'.render = t.render := by
  refine ⟨?_, ?_, ?_⟩
  · intro t
    constructor
    · rintro ⟨t', hread, hbeq⟩ x hx
      have hnames := names_congr (beq_iff.mp hbeq)
      have hx' : x.name ∈ t'.names.map Ident.name := by
        rw [hnames]
        exact List.mem_map_of_mem hx
      obtain ⟨y, hy, hyx⟩ := List.mem_map.mp hx'
      rw [← hyx]
      exact isWord_of_ofTextStart (ofTextStart_of_ofText hread) y hy
    · intro ht
      obtain ⟨t', hread, hproc⟩ := ofText_render ht
      exact ⟨t', hread, beq_iff.mpr hproc⟩
  · intro s t hs ht h
    obtain ⟨s', hread, hs'⟩ := ofText_render hs
    obtain ⟨t', hread', ht'⟩ := ofText_render ht
    rw [h, hread'] at hread
    cases hread
    exact beq_iff.mpr (hs'.symm.trans ht')
  · intro src t h
    have ht : ∀ x ∈ t.names, IsWord x.name :=
      isWord_of_ofTextStart (h.elim ofTextStart_of_ofText id)
    obtain ⟨t', hread, hproc⟩ := ofText_render ht
    exact ⟨t', hread, beq_iff.mpr hproc, render_congr hproc⟩

/-- The text of `rec x. (a.x | x)` reads back, and so does what is read; and where a variable stands
makes no difference to its text. -/
theorem render_reads_back_twice :
    (∃ t : SyntaxTree,
      ofText (render (.fix (.ofName "x") (.par (.act (.ofName "a") (.var (.ofName "x")))
        (.var (.ofName "x"))))) = .ok t ∧
      ∃ t', ofText t.render = .ok t' ∧ (t' == t) = true ∧ t'.render = t.render) ∧
    ((.var ⟨"x", ⟨3, 4, 1, 4⟩⟩ : SyntaxTree) == .var (.ofName "x")) = true := by
  obtain ⟨t, hread, -⟩ := (render_reads_back.1 (.fix (.ofName "x")
    (.par (.act (.ofName "a") (.var (.ofName "x"))) (.var (.ofName "x"))))).mpr (by decide)
  refine ⟨⟨t, hread, render_reads_back.2.2 _ t (.inl hread)⟩, ?_⟩
  exact render_reads_back.2.1 _ _ (by decide) (by decide)
    (by rw [render, render, Term.render_var, Term.render_var]; rfl)

end SyntaxTree

end Guardedness
