import Guardedness.Proofs.Lexer.Spellings
import Guardedness.Proofs.Parser.Acceptance
import Mathlib

/-!
# Texts are refused as early as can be

A text is refused at the first token that no text with a tree has there. What a text is taken for
depends on its tokens only, so this can be said with tokens alone: some are *accepted* when they are
those of a text that is written as a tree (`Accepted`), that is, when they are spelled as their
kinds ask for and their kinds are a sentence of the grammar (`accepted_iff`).

The tokens before the one of refusal (`Refused`) begin an accepted sequence. With it they do not,
unless it is the end token. This is what is known of a reader that has stopped (`Parser.Outcome`),
and the parser stops where the reader does. The error names this token or, at the end of the text,
none (`Parser.token?_wholeTerm`).
-/

namespace Guardedness

/-- The token that an error names. At the end of the text there is none. -/
def ParseError.token? : ParseError → Option Token
  | unexpected _ t | illegal t | dotAfterTerm t | trailing t => some t
  | endOfInput _ => none

/-- The tokens are those of a text that is written as a tree. -/
def Accepted (w : List (Token.Kind × String)) : Prop :=
  ∃ s, (Lexer.ofText s).spellings = w ∧ ∃ t, SyntaxTree.ofText s = .ok t

/-- The text `s` is refused with the error `e` at its token `t`, which is number `k` from 0. -/
structure Refused (s : String) (e : ParseError) (k : Nat) (t : Token) : Prop where
  token : (Lexer.ofText s).tokens[k]? = some t
  parser : (Parser.ofText s).wholeTerm.2 = .ofLexer ((Lexer.ofText s).afterCalls k)
  current : (Parser.ofText s).wholeTerm.2.current = t
  named : e.token? = if t.kind = .endOfInput then none else some t
  viable : ∃ w, Accepted ((Lexer.ofText s).spellings.take k ++ w)
  dead : t.kind ≠ .endOfInput → ∀ w, ¬Accepted ((Lexer.ofText s).spellings.take (k + 1) ++ w)

/-! ## What an error names -/

namespace Parser

variable {q : Parser} {e : ParseError}

theorem token?_refusal (expected : Expected) (x : Token) :
    (refusal expected x).token? = if x.kind = .endOfInput then none else some x := by
  unfold refusal
  split
  · next hend => rw [if_pos hend]; rfl
  · next hk => rw [if_neg (by simp [hk])]; rfl
  · next hne _ => rw [if_neg hne]; rfl

/-- What fails misses something at the next token, or finds a dot there. -/
theorem Fails.token?_eq {phase : Phase} {stack : List Frame} {us : List Token} {x : Token}
    (h : Fails phase stack us x e) :
    e.token? = if x.kind = .endOfInput then none else some x := by
  cases h with
  | dot hx => rw [if_neg (by simp [hx])]; rfl
  | _ => exact token?_refusal _ x

theorem Course.token?_eq {phase : Phase} {stack : List Frame} {ts : List Token} {x : Token}
    (h : Course phase stack ts x (.error e)) :
    e.token? = if x.kind = .endOfInput then none else some x := by
  generalize ha : Except.error e = answer at h
  induction h with
  | done => cases ha
  | fails fails =>
    cases ha
    exact fails.token?_eq
  | move _ _ ih => exact ih ha

theorem State.token?_run (s : State) (h : s.run.1 = .error e) :
    e.token? = s.run.2.ahead.head? := by
  obtain ⟨ts, -, course⟩ := s.course_run
  rw [h] at course
  rw [head?_ahead, course.token?_eq]

/-- An error names the token at which the parser stops; at the end of the text it names none. -/
theorem token?_wholeTerm (p : Parser) (h : p.wholeTerm.1 = .error e) :
    e.token? = p.wholeTerm.2.ahead.head? := by
  have hrun : p.term.1 = .error e → e.token? = p.term.2.ahead.head? :=
    State.token?_run ⟨.operand, [], p⟩
  rw [wholeTerm_snd]
  unfold wholeTerm at h
  generalize p.term = outcome at h hrun ⊢
  obtain ⟨answer, q⟩ := outcome
  cases answer with
  | error e => exact hrun h
  | ok t =>
    dsimp only at h
    split at h
    · cases h
    · next hend =>
      cases h
      rw [ahead_of_ne (by simpa [atEnd] using hend)]
      rfl

end Parser

variable {s : String} {e : ParseError} {k : Nat} {t : Token} {w : List (Token.Kind × String)}

/-! ## What is accepted -/

theorem kinds_ofText (s : String) :
    (Parser.ofText s).kinds = (Lexer.ofText s).spellings.map Prod.fst := by
  rw [Parser.kinds, Parser.ofText, ← Lexer.dropLast_tokens, Lexer.spellings, List.map_map]
  rfl

theorem exists_tree_iff (s : String) : (∃ t, SyntaxTree.ofText s = .ok t) ↔
    Grammar.Sentence ((Lexer.ofText s).spellings.map Prod.fst) := by
  rw [← kinds_ofText, ← Parser.wholeTerm_isOk_iff, SyntaxTree.ofText]
  cases (Parser.ofText s).wholeTerm.1 <;> simp [Except.isOk, Except.toBool]

/-- Tokens are accepted when they are spelled properly and their kinds are a sentence. -/
theorem accepted_iff : Accepted w ↔
    (∀ x ∈ w, Spelled x.1 x.2.toList) ∧ Grammar.Sentence (w.map Prod.fst) := by
  constructor
  · rintro ⟨s, rfl, h⟩
    exact ⟨(Lexer.ofText s).spelled_spellings, (exists_tree_iff s).mp h⟩
  · rintro ⟨hw, h⟩
    obtain ⟨s, rfl⟩ := exists_text hw
    exact ⟨s, rfl, (exists_tree_iff s).mpr h⟩

theorem accepted_spellings : Accepted (Lexer.ofText s).spellings ↔
    ∃ t, SyntaxTree.ofText s = .ok t := by
  rw [accepted_iff, and_iff_right (Lexer.ofText s).spelled_spellings, exists_tree_iff]

/-- If the kinds of spelled tokens begin a sentence, the tokens can be gone on with. -/
theorem exists_accepted {ks : List Token.Kind} (hw : ∀ x ∈ w, Spelled x.1 x.2.toList)
    (h : Grammar.Sentence (w.map Prod.fst ++ ks)) : ∃ v, Accepted (w ++ v) := by
  have hks : ∀ k ∈ ks, k ≠ .endOfInput := fun k hk =>
    (Grammar.reads_iff_sentence.mpr h).ne_endOfInput k (List.mem_append_right _ hk)
  obtain ⟨v, rfl, hv⟩ := exists_spellings ks hks
  refine ⟨v, accepted_iff.mpr ⟨?_, by rwa [List.map_append]⟩⟩
  intro x hx
  exact (List.mem_append.mp hx).elim (hw x) (hv x)

/-! ## Where a text is refused -/

namespace Parser

variable {l : Lexer} {q : Parser} {ts : List Token}

theorem Passes.spellings_eq (h : Passes (.ofLexer l) ts q) :
    l.spellings = ts.map Token.spelling ++ q.ahead.map Token.spelling := by
  rw [Lexer.spellings, Lexer.dropLast_tokens, h.ahead_eq, List.map_append]

theorem Passes.take_spellings (h : Passes (.ofLexer l) ts q) :
    l.spellings.take ts.length = ts.map Token.spelling := by
  rw [h.spellings_eq, List.take_left' (List.length_map _)]

theorem Passes.take_spellings_succ (h : Passes (.ofLexer l) ts q)
    (hq : q.current.kind ≠ .endOfInput) :
    l.spellings.take (ts.length + 1) = ts.map Token.spelling ++ [q.current.spelling] := by
  rw [List.take_add_one, h.take_spellings, h.spellings_eq, ahead_of_ne hq,
    List.getElem?_append_right (by simp)]
  simp

theorem map_fst_spelling (ts : List Token) :
    (ts.map Token.spelling).map Prod.fst = ts.map Token.kind := by
  rw [List.map_map]
  rfl

/-- With the token at which a reader of sentences stops, what it has read begins nothing that is
accepted. -/
theorem Passes.not_accepted {ok : Bool} (h : Passes (.ofLexer l) ts q)
    (hstop : ∀ w, w.head? = q.kinds.head? →
      (Grammar.Sentence (ts.map Token.kind ++ w) ↔ ok = true ∧ w = []))
    (hne : q.current.kind ≠ .endOfInput) (w : List (Token.Kind × String)) :
    ¬Accepted (l.spellings.take (ts.length + 1) ++ w) := by
  intro hw
  have hsentence := (accepted_iff.mp hw).2
  rw [h.take_spellings_succ hne, List.append_assoc, List.map_append, map_fst_spelling] at hsentence
  have hhead : (([q.current.spelling] ++ w).map Prod.fst).head? = q.kinds.head? := by
    rw [Parser.kinds, Parser.ahead_of_ne hne]
    rfl
  cases ((hstop _ hhead).mp hsentence).2

end Parser

/-- A text is refused at the token at which the parser stops. -/
theorem exists_refused (h : SyntaxTree.ofText s = .error e) : ∃ k t, Refused s e k t := by
  have hnamed := Parser.token?_wholeTerm (.ofText s) h
  obtain ⟨ts, hpass, ⟨ks, hviable⟩, hstop⟩ := (Parser.ofText s).outcome_wholeTerm
  obtain ⟨hparser, htoken⟩ := hpass.eq_afterCalls
  generalize hq : (Parser.ofText s).wholeTerm.2 = q at *
  refine ⟨ts.length, q.current, htoken, hq.trans hparser, congrArg Parser.current hq, ?_, ?_, ?_⟩
  · rw [hnamed, Parser.head?_ahead]
  · rw [← Parser.map_fst_spelling, ← hpass.take_spellings] at hviable
    refine exists_accepted ?_ hviable
    intro x hx
    exact (Lexer.ofText s).spelled_spellings x (List.mem_of_mem_take hx)
  · exact hpass.not_accepted hstop

namespace Refused

theorem take_of_end (h : Refused s e k t) (hend : t.kind = .endOfInput) :
    (Lexer.ofText s).spellings.take k = (Lexer.ofText s).spellings :=
  List.take_of_length_le (Lexer.length_spellings_le h.token hend)

theorem kind_eq_iff (h : Refused s e k t) : t.kind = .endOfInput ↔ ∃ x, e = .endOfInput x := by
  have hnamed := h.named
  constructor
  · intro hend
    rw [if_pos hend] at hnamed
    cases e with
    | endOfInput x => exact ⟨x, rfl⟩
    | _ => cases hnamed
  · rintro ⟨x, rfl⟩
    by_cases hend : t.kind = .endOfInput
    · exact hend
    · rw [if_neg hend] at hnamed
      cases hnamed

/-- After another error nothing that is added mends the text. -/
theorem not_accepted (h : Refused s e k t) (hne : t.kind ≠ .endOfInput)
    (w : List (Token.Kind × String)) : ¬Accepted ((Lexer.ofText s).spellings ++ w) := by
  intro hw
  rw [← List.take_append_drop (k + 1) (Lexer.ofText s).spellings, List.append_assoc] at hw
  exact h.dead hne _ hw

end Refused

/-- **A text that is written as no tree is refused at the first token that no text with a tree has
there: those before it can be gone on with, and with it they cannot, unless it is the end token. The
error names it. So the error is the one for the end of the text just when its tokens are not
accepted but begin others that are.** -/
theorem refused_at_earliest (s : String) :
    (∀ e, SyntaxTree.ofText s = .error e → ∃ k t, Refused s e k t) ∧
    ((∃ x, SyntaxTree.ofText s = .error (.endOfInput x)) ↔
      ¬Accepted (Lexer.ofText s).spellings ∧
        ∃ w, w ≠ [] ∧ Accepted ((Lexer.ofText s).spellings ++ w)) ∧
    ∀ e, SyntaxTree.ofText s = .error e → (∀ x, e ≠ .endOfInput x) →
      ∀ w, ¬Accepted ((Lexer.ofText s).spellings ++ w) := by
  refine ⟨fun _ => exists_refused, ⟨?_, ?_⟩, ?_⟩
  · rintro ⟨x, h⟩
    obtain ⟨k, t, hrefused⟩ := exists_refused h
    have hnot : ¬Accepted (Lexer.ofText s).spellings := by
      rw [accepted_spellings, h]
      simp
    obtain ⟨w, hw⟩ := hrefused.viable
    rw [hrefused.take_of_end (hrefused.kind_eq_iff.mpr ⟨x, rfl⟩)] at hw
    refine ⟨hnot, w, ?_, hw⟩
    rintro rfl
    rw [List.append_nil] at hw
    exact hnot hw
  · rintro ⟨hnot, w, -, hw⟩
    cases h : SyntaxTree.ofText s with
    | ok u => exact absurd (accepted_spellings.mpr ⟨u, h⟩) hnot
    | error e =>
      obtain ⟨k, t, hrefused⟩ := exists_refused h
      by_cases hend : t.kind = .endOfInput
      · obtain ⟨x, rfl⟩ := hrefused.kind_eq_iff.mp hend
        exact ⟨x, rfl⟩
      · exact absurd hw (hrefused.not_accepted hend w)
  · intro e h hother w
    obtain ⟨k, t, hrefused⟩ := exists_refused h
    refine hrefused.not_accepted ?_ w
    intro hend
    obtain ⟨x, rfl⟩ := hrefused.kind_eq_iff.mp hend
    exact hother x rfl

/-- The dot of `(a).b` is where that is refused, and no text goes on after it. The text `a.` only
lacks a term. -/
theorem refused_at_earliest_of_dot :
    (∃ k t, Refused "(a).b" (.dotAfterTerm ⟨.dot, ".", ⟨3, 4, 1, 4⟩⟩) k t) ∧
      (∀ w, ¬Accepted ([(.parenOpen, "("), (.identifier, "a"), (.parenClose, ")"), (.dot, "."),
        (.identifier, "b")] ++ w)) ∧
      ¬Accepted [(.identifier, "a"), (.dot, ".")] ∧
      ∃ w, w ≠ [] ∧ Accepted ([(.identifier, "a"), (.dot, ".")] ++ w) := by
  have hdot : SyntaxTree.ofText "(a).b" =
      .error (.dotAfterTerm ⟨.dot, ".", ⟨3, 4, 1, 4⟩⟩) := by cbv
  have hend : SyntaxTree.ofText "a." = .error (.endOfInput .term) := by cbv
  have htokens : (Lexer.ofText "(a).b").spellings = [(.parenOpen, "("), (.identifier, "a"),
      (.parenClose, ")"), (.dot, "."), (.identifier, "b")] := by cbv
  have htokens' : (Lexer.ofText "a.").spellings = [(.identifier, "a"), (.dot, ".")] := by cbv
  obtain ⟨hrefused, -, hdead⟩ := refused_at_earliest "(a).b"
  obtain ⟨-, hlacks, -⟩ := refused_at_earliest "a."
  obtain ⟨hnot, hviable⟩ := hlacks.mp ⟨_, hend⟩
  rw [htokens] at hdead
  rw [htokens'] at hnot hviable
  exact ⟨hrefused _ hdot, hdead _ hdot (by simp), hnot, hviable⟩

end Guardedness
