import Guardedness.Proofs.Parser.Derivation
import Guardedness.Proofs.Parser.Longest

/-!
# The parser finds the derivation

A parser amid a term has read a part of a derivation. What the rest of it has to look like is said
of the constructs that are open (`Completes`): a parenthesis asks for the closing one and a tail, a
recursion ends where its body ends, and an action, a choice or a composition asks for a tail if its
operand is closed, and for nothing if it is open.

Every move keeps to the derivation (`Move.derives`). A parser passes on from a term only where no
operator follows, and it is there that the term is known to be open. A term that is closed without
looking at what follows, as `nil` is, may count as either (`Phase.Derives`).
-/

namespace Guardedness

namespace Token

variable {t : Token}

theorem terminal_of_identifier (h : t.kind = .identifier) : t.terminal = .name (.ofToken t) :=
  if_pos h

theorem terminal_of_kind {k : Kind} (h : t.kind = k) (hk : k ≠ .identifier := by decide) :
    t.terminal = .mark k := by
  rw [terminal, if_neg (h ▸ hk), h]

theorem isOperator_terminal (t : Token) : t.terminal.isOperator = Grammar.isOperator t.kind := by
  unfold terminal
  split
  · next h => rw [h]; rfl
  · rfl

end Token

namespace Grammar

def Derivation.isClosed {ν : Type _} : Derivation ν → Bool
  | .ofClosed _ => true
  | .ofOpen _ => false

end Grammar

namespace Parser

open Grammar

/-- The tree of an open construct with `u` in it. -/
def Frame.fill (u : SyntaxTree) : Frame → SyntaxTree
  | paren => u
  | fix x => .fix x u
  | act a => .act a u
  | sum s => .sum s u
  | par s => .par s u

/-- The operators behind `u` come first, and what follows them is as `P` says of the tree with
them. -/
def Tailed (P : SyntaxTree → List (Terminal Ident) → Prop) (u : SyntaxTree)
    (w : List (Terminal Ident)) : Prop :=
  ∃ (v : Tail Ident) (w' : List (Terminal Ident)), w = v.yield ++ w' ∧ P (v.apply u) w'

/-- What a derivation with the tree `t` has behind a term with the tree `u` that stands within open
constructs. -/
def Completes (t : SyntaxTree) :
    List Frame → (closed : Bool) → SyntaxTree → List (Terminal Ident) → Prop
  | [], _, u, w => u = t ∧ w = []
  | f :: stack, closed, u, w =>
    match f.opening, closed with
    | .paren, _ => ∃ w', w = .mark .parenClose :: w' ∧
        Tailed (Completes t stack false) (f.fill u) w'
    | .binder, closed => Completes t stack closed (f.fill u) w
    | .operand, true => Tailed (Completes t stack false) (f.fill u) w
    | .operand, false => Completes t stack false (f.fill u) w

/-- What it has from the start of a term on. -/
def DerivesTerm (t : SyntaxTree) (stack : List Frame) (w : List (Terminal Ident)) : Prop :=
  ∃ (d : Derivation Ident) (w' : List (Terminal Ident)),
    w = d.yield ++ w' ∧ Completes t stack d.isClosed d.tree w'

/-- What it has from a phase on. -/
def Phase.Derives (t : SyntaxTree) (stack : List Frame) : Phase → List (Terminal Ident) → Prop
  | operand, w => DerivesTerm t stack w
  | operators u action, w => Tailed (Completes t stack false) u w ∨
      ∃ a w', action = some a ∧ w = .mark .dot :: w' ∧ DerivesTerm t (.act a :: stack) w'
  | close u, w => ∀ closed, (closed = false → Stops w) → Completes t stack closed u w

variable {P : SyntaxTree → List (Terminal Ident) → Prop} {t u : SyntaxTree}
  {w : List (Terminal Ident)} {us ts : List Token} {x : Token} {phase phase' : Phase}
  {stack stack' : List Frame} {answer : Except ParseError SyntaxTree}

/-! ## Operators behind a term -/

theorem Tailed.stop (h : P u w) : Tailed P u w := ⟨.nil, w, rfl, h⟩

theorem Tailed.of_stops (h : Tailed P u w) (hw : Stops w) : P u w := by
  obtain ⟨v, w, rfl, h⟩ := h
  obtain rfl := Tail.eq_nil_of_stops hw
  exact h

theorem Tailed.res {a : Ident} (h : Tailed P (.res u a) w) :
    Tailed P u (.mark .backslash :: .name a :: w) := by
  obtain ⟨v, w, rfl, h⟩ := h
  exact ⟨.res a v, w, rfl, h⟩

theorem Tailed.rel {f : Ident} (h : Tailed P (.rel u f) w) :
    Tailed P u (.mark .bracketOpen :: .name f :: .mark .bracketClose :: w) := by
  obtain ⟨v, w, rfl, h⟩ := h
  exact ⟨.rel f v, w, rfl, h⟩

theorem completes_infixClosed {op : Infix} {s : SyntaxTree} :
    Completes t (.ofInfix op s :: stack) true u w =
      Tailed (Completes t stack false) (op.tree s u) w := by
  cases op <;> rfl

theorem completes_infixOpen {op : Infix} {s : SyntaxTree} :
    Completes t (.ofInfix op s :: stack) false u w = Completes t stack false (op.tree s u) w := by
  cases op <;> rfl

/-- An operator and its operand are the last of a tail if the operand is open, and if it is closed
the tail goes on. -/
theorem Tailed.operator (op : Infix) (h : DerivesTerm t (.ofInfix op u :: stack) w) :
    Tailed (Completes t stack false) u (.mark op.mark :: w) := by
  obtain ⟨d, w, rfl, h⟩ := h
  cases d with
  | ofClosed c =>
    rw [Derivation.isClosed, completes_infixClosed] at h
    obtain ⟨v, w, rfl, h⟩ := h
    exact ⟨.infixClosed op c v, w, by simp [Tail.yield, Derivation.yield], h⟩
  | ofOpen o => exact ⟨.infixOpen op o, w, rfl, completes_infixOpen ▸ h⟩

/-! ## Starts of terms -/

theorem DerivesTerm.fix {x : Ident} (h : DerivesTerm t (.fix x :: stack) w) :
    DerivesTerm t stack (.mark (.keyword .recWord) :: .name x :: .mark .dot :: w) := by
  obtain ⟨d, w, rfl, h⟩ := h
  cases d with
  | ofClosed c => exact ⟨.ofClosed (.fix x c), w, rfl, h⟩
  | ofOpen o => exact ⟨.ofOpen (.fix x o), w, rfl, h⟩

theorem DerivesTerm.paren (h : DerivesTerm t (.paren :: stack) w) :
    DerivesTerm t stack (.mark .parenOpen :: w) := by
  obtain ⟨d, w, rfl, w', rfl, v, w, rfl, h⟩ := h
  exact ⟨.ofOpen (.paren d v), w, by simp [Derivation.yield, Open.yield], h⟩

/-- A name is a variable with the operators behind it, or the action of what comes after the dot. -/
theorem DerivesTerm.name {a : Ident}
    (h : Phase.Derives t stack (.operators (.var a) (some a)) w) :
    DerivesTerm t stack (.name a :: w) := by
  obtain ⟨v, w, rfl, h⟩ | ⟨_, w, ⟨⟩, rfl, d, w, rfl, h⟩ := h
  · exact ⟨.ofOpen (.var a v), w, rfl, h⟩
  · cases d with
    | ofClosed c =>
      obtain ⟨v, w, rfl, h⟩ := h
      exact ⟨.ofOpen (.actClosed a c v), w, by simp [Derivation.yield, Open.yield], h⟩
    | ofOpen o => exact ⟨.ofOpen (.actOpen a o), w, rfl, h⟩

/-! ## Moves and courses -/

/-- A single name with no dot behind it is followed by operators. -/
theorem Phase.Derives.tailed (h : Phase.Derives t stack (.operators u none) w) :
    Tailed (Completes t stack false) u w := by
  obtain h | ⟨_, _, ⟨⟩, -⟩ := h
  exact h

/-- The rest of a derivation is one with the tokens of a move in front of it. -/
theorem Move.derives (h : Move phase stack us x phase' stack')
    (hx : Grammar.isOperator x.kind = false → Stops w) (hw : phase'.Derives t stack' w) :
    phase.Derives t stack (us.map Token.terminal ++ w) := by
  cases h with
  | paren ho =>
    rw [List.map_singleton, Token.terminal_of_kind ho]
    exact DerivesTerm.paren hw
  | name ha =>
    rw [List.map_singleton, Token.terminal_of_identifier ha]
    exact DerivesTerm.name hw
  | nil ho =>
    rw [List.map_singleton, Token.terminal_of_kind ho]
    exact ⟨.ofClosed .nil, w, rfl, hw true nofun⟩
  | fix ho ha hd =>
    simp only [List.map_cons, List.map_nil, Token.terminal_of_kind ho,
      Token.terminal_of_identifier ha, Token.terminal_of_kind hd]
    exact DerivesTerm.fix hw
  | @act _ _ _ a _ ho =>
    rw [List.map_singleton, Token.terminal_of_kind ho]
    exact .inr ⟨a, w, rfl, rfl, hw⟩
  | sum ho =>
    rw [List.map_singleton, Token.terminal_of_kind ho]
    exact .inl (Tailed.operator .sum hw)
  | par ho =>
    rw [List.map_singleton, Token.terminal_of_kind ho]
    exact .inl (Tailed.operator .par hw)
  | res ho ha =>
    simp only [List.map_cons, List.map_nil, Token.terminal_of_kind ho,
      Token.terminal_of_identifier ha]
    exact .inl (Phase.Derives.tailed hw).res
  | rel ho ha hc =>
    simp only [List.map_cons, List.map_nil, Token.terminal_of_kind ho,
      Token.terminal_of_identifier ha, Token.terminal_of_kind hc]
    exact .inl (Phase.Derives.tailed hw).rel
  | pass hop => exact .inl (Tailed.stop (hw false fun _ => hx hop))
  | closeParen hc =>
    rw [List.map_singleton, Token.terminal_of_kind hc]
    exact fun _ _ => ⟨w, rfl, Phase.Derives.tailed hw⟩
  | closeFix => exact hw
  | closeAct | closeSum | closePar =>
    -- What is closed here takes the tail, and what is open has none to take.
    intro closed hstops
    cases closed with
    | true => exact Phase.Derives.tailed hw
    | false => exact (Phase.Derives.tailed hw).of_stops (hstops rfl)

theorem stops_terminals (h : Grammar.isOperator (first ts x).kind = false) :
    Stops (ts.map Token.terminal) := by
  cases ts with
  | nil => exact stops_nil
  | cons y ts =>
    rintro _ ⟨⟩
    rw [Token.isOperator_terminal]
    exact h

theorem Course.derives (h : Course phase stack ts x (.ok t)) :
    phase.Derives t stack (ts.map Token.terminal) := by
  generalize ha : Except.ok t = answer at h
  induction h with
  | done =>
    cases ha
    exact fun _ _ => ⟨rfl, rfl⟩
  | fails => cases ha
  | move move _ ih =>
    rw [List.map_append]
    exact move.derives stops_terminals (ih ha)

/-- The tokens of a term have a derivation with the tree of the term. -/
theorem Course.exists_derivation (h : Course .operand [] ts x (.ok t)) :
    ∃ d : Derivation Ident, d.yield = ts.map Token.terminal ∧ d.tree = t := by
  obtain ⟨d, w, hw, htree, rfl⟩ := h.derives
  exact ⟨d, by rw [hw, List.append_nil], htree⟩

end Parser

namespace SyntaxTree

variable {s : String} {t : SyntaxTree} {q : Parser}

/-- The tokens of a text that is a tree have a derivation with this tree. -/
theorem exists_derivation_of_ofText (h : ofText s = .ok t) : ∃ d : Grammar.Derivation Ident,
    d.yield = (Lexer.ofText s).tokens.dropLast.map Token.terminal ∧ d.tree = t := by
  cases hterm : (Parser.ofText s).term with
  | mk answer q =>
    rw [ofText_eq hterm] at h
    cases answer with
    | error e => cases h
    | ok u =>
      dsimp only [Except.bind] at h
      split at h
      · next hend =>
        cases h
        obtain ⟨ts, passes, course⟩ := Parser.exists_course hterm
        obtain ⟨d, hyield, htree⟩ := course.exists_derivation
        have hahead : (Parser.ofText s).ahead = ts := by
          rw [passes.ahead_eq, Parser.ahead_of_end hend, List.append_nil]
        refine ⟨d, ?_, htree⟩
        rw [Lexer.dropLast_tokens]
        exact hyield.trans (congrArg _ hahead.symm)
      · cases h

/-- **The tokens that a parser takes for a term have exactly one derivation, and the tree is the
tree of that derivation.** -/
theorem ofTextStart_derivation (h : ofTextStart s = .ok t) :
    ∃ k < (Lexer.ofText s).tokens.length,
      (Parser.ofText s).term.2 = .ofLexer ((Lexer.ofText s).afterCalls k) ∧
      ∃ d : Grammar.Derivation Ident, d.tree = t ∧
        ∀ d' : Grammar.Derivation Ident,
          d'.yield = ((Lexer.ofText s).tokens.take k).map Token.terminal ↔ d' = d := by
  have hterm : (Parser.ofText s).term = (.ok t, (Parser.ofText s).term.2) := Prod.ext h rfl
  obtain ⟨ts, passes, course⟩ := Parser.exists_course hterm
  obtain ⟨d, hyield, htree⟩ := course.exists_derivation
  obtain ⟨hparser, hnext⟩ := Parser.Passes.eq_afterCalls passes
  refine ⟨ts.length, (List.getElem?_eq_some_iff.mp hnext).1, hparser, d, htree, fun d' => ?_⟩
  rw [Parser.Passes.take_tokens passes, ← hyield]
  exact ⟨Grammar.Derivation.yield_inj, fun hd => by rw [hd]⟩

/-- In `a.nil + b` the operator is applied to the action that comes before it, since nothing can
follow `nil`. -/
theorem ofTextStart_derivation_of_nil :
    ∃ (k : Nat) (d : Grammar.Derivation Ident),
      d.tree = .sum (.act ⟨"a", ⟨0, 1, 1, 1⟩⟩ .nil) (.var ⟨"b", ⟨8, 9, 1, 9⟩⟩) ∧
      ∀ d' : Grammar.Derivation Ident,
        d'.yield = ((Lexer.ofText "a.nil + b").tokens.take k).map Token.terminal ↔ d' = d := by
  have h : ofTextStart "a.nil + b" =
      .ok (.sum (.act ⟨"a", ⟨0, 1, 1, 1⟩⟩ .nil) (.var ⟨"b", ⟨8, 9, 1, 9⟩⟩)) := by cbv
  obtain ⟨k, -, -, d, hd⟩ := ofTextStart_derivation h
  exact ⟨k, d, hd⟩

end SyntaxTree

end Guardedness
