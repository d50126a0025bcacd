import Guardedness.Proofs.Parser.Moves

/-!
# The parser accepts the sentences

A parser amid a term acts as a greedy reader that sees the kinds of its tokens and, of each open
construct, what may follow it (`State.Takes`).

A move reads what the reader reads (`Move.reads_iff`). Where a parser fails, the tokens that it has
read can be gone on with (`Fails.viable`), but not with the next one (`Fails.dead`). So it is with a
whole course (`Course.viable`, `Course.reads_iff`), and a parser stops where the reader does
(`Outcome`).

A run therefore ends well and leaves no token just when the reader reads all tokens
(`State.accepts_run`), and by `Grammar.reads_iff_sentence` these are the sentences of the grammar.
-/

namespace Guardedness

namespace Parser

open Grammar

/-- What may follow an open construct. -/
def Frame.opening : Frame → Opening
  | paren => .paren
  | fix _ => .binder
  | act _ | sum _ | par _ => .operand

/-- What a phase reads next. -/
def Phase.control : Phase → Control
  | operand => .operand
  | operators _ action => .operators action.isSome
  | close _ => .close

/-- What the reader that a state acts as reads to the end. -/
def State.Takes (s : State) : List Token.Kind → Prop :=
  Reads s.phase.control (s.stack.map Frame.opening)

def State.Accepts (s : State) : Prop :=
  Reads s.phase.control (s.stack.map Frame.opening) s.parser.kinds

/-- The same of a phase, with some constructs open. -/
def Phase.Takes (phase : Phase) (stack : List Frame) : List Token.Kind → Prop :=
  Reads phase.control (stack.map Frame.opening)

/-- The kinds begin with that of `x`, or are none at all if it is the end token. -/
def BeginsWith (x : Token) (w : List Token.Kind) : Prop :=
  w.head? = if x.kind = .endOfInput then none else some x.kind

/-- A reader for `L` goes from `p` to `q` and stops there, well or not. -/
def Outcome (L : List Token.Kind → Prop) (p : Parser) (ok : Bool) (q : Parser) : Prop :=
  ∃ ts, Passes p ts q ∧ (∃ w, L (ts.map Token.kind ++ w)) ∧
    ∀ w, w.head? = q.kinds.head? → (L (ts.map Token.kind ++ w) ↔ ok = true ∧ w = [])

variable {p q : Parser} {k : Token.Kind} {w : List Token.Kind} {x : Token} {us ts : List Token}
  {phase phase' : Phase} {stack stack' : List Frame} {e : ParseError}
  {answer : Except ParseError SyntaxTree}

theorem atEnd_iff_kinds : p.atEnd = true ↔ p.kinds = [] := by
  rw [atEnd_iff, kinds, List.map_eq_nil_iff]

theorem beginsWith_of_head? (h : w.head? = p.kinds.head?) : BeginsWith p.current w := by
  rw [BeginsWith, h, kinds, List.head?_map, head?_ahead]
  split <;> rfl

/-! ## Moves -/

theorem BeginsWith.kind_eq (h : BeginsWith x (k :: w)) : x.kind = k := by
  unfold BeginsWith at h
  split at h <;> simp_all

/-- What is read after a move is read with its tokens before. -/
theorem Move.reads (h : Move phase stack us x phase' stack') (hw : phase'.Takes stack' w) :
    phase.Takes stack (us.map Token.kind ++ w) := by
  unfold Phase.Takes at hw ⊢
  cases h with
  | pass => exact hw.operators
  | _ => simp_all [Phase.control, Frame.opening]

/-- Nothing else is read with them, if it begins with the next token. -/
theorem Move.reads_iff (h : Move phase stack us x phase' stack') (hw : BeginsWith x w) :
    phase.Takes stack (us.map Token.kind ++ w) ↔ phase'.Takes stack' w := by
  refine ⟨?_, h.reads⟩
  unfold Phase.Takes
  cases h with
  | pass hx =>
    -- A term may be closed before any token, but no operator is read after that.
    refine (reads_pass ?_).mp
    intro k hk
    obtain ⟨w, rfl⟩ := List.head?_eq_some_iff.mp hk
    rwa [hw.kind_eq] at hx
  | _ => simp_all [Phase.control, Frame.opening]

/-- What is read before a failure can be gone on with. -/
theorem Fails.viable (h : Fails phase stack us x e) :
    ∃ w, phase.Takes stack (us.map Token.kind ++ w) := by
  unfold Phase.Takes
  cases h with
  | term | dot | parenClose => exact exists_reads _ _
  | recName ho =>
    simpa [ho, Phase.control] using exists_expects (exists_expects (exists_reads _ _))
  | recDot ho ha => simpa [ho, ha, Phase.control] using exists_expects (exists_reads _ _)
  | resName ho => simpa [ho, Phase.control] using exists_expects (exists_reads _ _)
  | relName ho =>
    simpa [ho, Phase.control] using exists_expects (exists_expects (exists_reads _ _))
  | bracketClose ho ha => simpa [ho, ha, Phase.control] using exists_expects (exists_reads _ _)

theorem BeginsWith.not_expects {P : List Token.Kind → Prop} (h : BeginsWith x w) (hk : x.kind ≠ k) :
    ¬Expects k P w := by
  rintro ⟨w, rfl, -⟩
  exact hk h.kind_eq

/-- With the token that is refused it cannot. -/
theorem Fails.dead (h : Fails phase stack us x e) (hw : BeginsWith x w) :
    ¬phase.Takes stack (us.map Token.kind ++ w) := by
  unfold Phase.Takes
  cases h with
  | term hx =>
    intro hreads
    replace hreads : Reads .operand _ w := hreads
    cases hreads <;> simp [hw.kind_eq, isStart] at hx
  | recName ho hx => simpa [ho, Phase.control] using hw.not_expects hx
  | recDot ho ha hx => simpa [ho, ha, Phase.control] using hw.not_expects hx
  | dot hx =>
    obtain ⟨w, rfl⟩ : ∃ w', w = .dot :: w' := by
      simpa [BeginsWith, hx, List.head?_eq_some_iff] using hw
    simp [Phase.control]
  | resName ho hx => simpa [ho, Phase.control] using hw.not_expects hx
  | relName ho hx => simpa [ho, Phase.control] using hw.not_expects hx
  | bracketClose ho ha hx => simpa [ho, ha, Phase.control] using hw.not_expects hx
  | parenClose hx => simpa [Phase.control, Frame.opening] using hw.not_expects hx

/-! ## Courses -/

theorem Course.viable (h : Course phase stack ts x answer) :
    ∃ w, phase.Takes stack (ts.map Token.kind ++ w) := by
  induction h with
  | done => exact ⟨[], .done⟩
  | fails fails => exact fails.viable
  | move move _ ih =>
    obtain ⟨w, hw⟩ := ih
    refine ⟨w, ?_⟩
    rw [List.map_append, List.append_assoc]
    exact move.reads hw

theorem beginsWith_first (hts : ∀ y ∈ ts, y.kind ≠ .endOfInput) (hw : BeginsWith x w) :
    BeginsWith (first ts x) (ts.map Token.kind ++ w) := by
  cases ts with
  | nil => exact hw
  | cons y ts => simp [BeginsWith, hts y List.mem_cons_self]

/-- With what begins with the next token, nothing is read to the end but the term itself. -/
theorem Course.reads_iff (h : Course phase stack ts x answer) (hw : BeginsWith x w) :
    phase.Takes stack (ts.map Token.kind ++ w) ↔ answer.isOk = true ∧ w = [] := by
  induction h with
  | done => exact reads_done.trans (and_iff_right rfl).symm
  | fails fails => exact iff_of_false (fails.dead hw) (by simp [Except.isOk, Except.toBool])
  | move move rest ih =>
    rw [List.map_append, List.append_assoc]
    exact (move.reads_iff (beginsWith_first rest.ne_end hw)).trans (ih hw)

theorem Outcome.iff_atEnd {L : List Token.Kind → Prop} {ok : Bool} (h : Outcome L p ok q) :
    L p.kinds ↔ ok = true ∧ q.atEnd = true := by
  obtain ⟨ts, hpass, -, hstop⟩ := h
  rw [hpass.kinds_eq, hstop q.kinds rfl, atEnd_iff_kinds]

namespace State

/-- A run stops where the reader stops, and ends well when the reader does. -/
theorem outcome_run (s : State) : Outcome s.Takes s.parser s.run.1.isOk s.run.2 := by
  obtain ⟨ts, passes, course⟩ := s.course_run
  exact ⟨ts, passes, course.viable, fun _ hw => course.reads_iff (beginsWith_of_head? hw)⟩

/-- A run gives a term and leaves no token when the reader reads all tokens. -/
theorem accepts_run (s : State) : s.Accepts ↔ s.run.1.isOk = true ∧ s.run.2.atEnd = true :=
  s.outcome_run.iff_atEnd

end State

theorem wholeTerm_snd (p : Parser) : p.wholeTerm.2 = p.term.2 := by
  unfold wholeTerm
  obtain ⟨answer, q⟩ := p.term
  cases answer with
  | error e => rfl
  | ok t =>
    dsimp only
    split <;> rfl

theorem outcome_wholeTerm (p : Parser) : Outcome Sentence p p.term.1.isOk p.wholeTerm.2 := by
  rw [wholeTerm_snd]
  obtain ⟨ts, passes, ⟨w, hviable⟩, hstop⟩ := State.outcome_run ⟨.operand, [], p⟩
  refine ⟨ts, passes, ⟨w, reads_iff_sentence.mp hviable⟩, ?_⟩
  intro w hw
  exact reads_iff_sentence.symm.trans (hstop w hw)

/-- A parser reads a whole term just when the kinds of the tokens ahead are a sentence. -/
theorem wholeTerm_isOk_iff (p : Parser) : p.wholeTerm.1.isOk = true ↔ Sentence p.kinds := by
  have hrun : Reads .operand [] p.kinds ↔ p.term.1.isOk = true ∧ p.term.2.atEnd = true :=
    State.accepts_run ⟨.operand, [], p⟩
  rw [← reads_iff_sentence, hrun, wholeTerm]
  obtain ⟨answer, q⟩ := p.term
  cases answer with
  | error e => simp [Except.isOk, Except.toBool]
  | ok t => cases hq : q.atEnd <;> simp [Except.isOk, Except.toBool, hq]

end Parser

namespace SyntaxTree

/-- **A text is written as a tree just when its tokens, the end token aside, are a sentence of the
grammar.** -/
theorem exists_ofText_iff_sentence (s : String) : (∃ t, ofText s = .ok t) ↔
    Grammar.Sentence ((Lexer.ofText s).tokens.dropLast.map Token.kind) := by
  rw [Lexer.dropLast_tokens]
  refine Iff.trans ?_ (Parser.wholeTerm_isOk_iff (.ofText s))
  unfold ofText
  cases (Parser.ofText s).wholeTerm.1 with
  | error e => simp [Except.isOk, Except.toBool]
  | ok t => simp [Except.isOk, Except.toBool]

end SyntaxTree

end Guardedness
