import Guardedness.Lexer
import Guardedness.Parser.Error
import Guardedness.SyntaxTree

/-!
# The parser

A term is written as

    term := 'nil'
          | 'rec' name '.' term
          | name operator*
          | '(' term ')' operator*

    operator := '.' term            directly after a single name
              | '+' term | '|' term
              | '\' name | '[' name ']'

All operators bind alike, and every operand to the right is as long as it can be: `a.b + c` is
`a.(b + c)`. But no operator belongs to `nil`, nor to a recursion that ends with it. One that stands
behind such an operand is applied to the innermost action, choice or composition that the operand
completes: `a.nil + b` is `(a.nil) + b`, and `a + rec x. nil + b` is `(a + rec x. nil) + b`. If
there is none, the term has ended.

**A parser** holds the current token, the one after it, and the lexer behind both. It outlives
a failure: the token at which a text is refused stays current, and reading can go on from there.

**The machine** (`State.step`). Open constructs are kept on a stack, innermost first, so depth
costs no recursion. Each step reads a token, or closes the innermost construct, or passes from
the operators after a term to what surrounds it. A step that reads nothing makes the stack
shorter or the phase lower, which is why `run` ends (`State.step_smaller`).
-/

namespace Guardedness

/-- A reader of terms: the current token, the next one, and the lexer after both. -/
structure Parser where
  current : Token
  peek : Token
  lexer : Lexer
deriving DecidableEq, Repr

namespace Parser

/-- A parser at the token that `l` gives next. -/
def ofLexer (l : Lexer) : Parser := ⟨l.next.1, l.next.2.next.1, l.next.2.next.2⟩

/-- A parser at the start of a text. -/
def ofText (s : String) : Parser := ofLexer (.ofText s)

/-- Read past the current token. -/
def advance (p : Parser) : Parser := ⟨p.peek, p.lexer.next.1, p.lexer.next.2⟩

def atEnd (p : Parser) : Bool := p.current.kind == .endOfInput

/-- The failure of finding the current token where `e` was expected. -/
def unexpected (p : Parser) (e : Expected) : ParseError :=
  match p.current.kind with
  | .endOfInput => .endOfInput e
  | .illegal => .illegal p.current
  | _ => .unexpected e p.current

/-- A bound on the tokens before the end token: no token is shorter than a character. -/
def remaining (p : Parser) : Nat :=
  if p.current.kind = .endOfInput then 0
  else if p.peek.kind = .endOfInput then 1
  else p.lexer.rest.length + 2

theorem remaining_advance_lt {p : Parser} (h : p.current.kind ≠ .endOfInput) :
    p.advance.remaining < p.remaining := by
  have hn := p.lexer.next_shrinks
  unfold remaining advance
  simp only [h, if_false]
  by_cases hp : p.peek.kind = .endOfInput
  · simp [hp]
  · by_cases hx : p.lexer.next.1.kind = .endOfInput
    · simp [hp, hx]
    · simp only [hp, hx, if_false]
      have := hn hx
      omega

theorem remaining_advance_of_kind {p : Parser} {k : Token.Kind} (h : p.current.kind = k)
    (hk : k ≠ .endOfInput := by decide) : p.advance.remaining < p.remaining :=
  remaining_advance_lt (h ▸ hk)

/-- A construct that is open around the term being read. -/
inductive Frame where
  | paren
  | fix (x : Ident)
  | act (a : Ident)
  | sum (p : SyntaxTree)
  | par (p : SyntaxTree)

/-- What is read next. -/
inductive Phase where
  | operand
  /-- Operators may follow `p`; if it is a single name, a dot makes that an action. -/
  | operators (p : SyntaxTree) (action : Option Ident)
  /-- The innermost open construct gets `p`. -/
  | close (p : SyntaxTree)

/-- The order of phases while nothing is read. -/
def Phase.rank : Phase → Nat
  | operand => 0
  | close _ => 1
  | operators _ _ => 2

/-- A parser amid a term. -/
structure State where
  phase : Phase
  stack : List Frame
  parser : Parser

/-- A step leads to another state or to the answer. -/
inductive Step where
  | more (s : State)
  | stop (answer : Except ParseError SyntaxTree) (p : Parser)

namespace State

def refuse (p : Parser) (e : Expected) : Step := .stop (.error (p.unexpected e)) p

/-- Read the start of a term. -/
def stepOperand (stack : List Frame) (p : Parser) : Step :=
  match p.current.kind with
  | .parenOpen => .more ⟨.operand, .paren :: stack, p.advance⟩
  | .identifier =>
    let x := Ident.ofToken p.current
    .more ⟨.operators (.var x) (some x), stack, p.advance⟩
  | .keyword .nilWord => .more ⟨.close .nil, stack, p.advance⟩
  | .keyword .recWord =>
    let q := p.advance
    if q.current.kind = .identifier then
      let r := q.advance
      if r.current.kind = .dot then
        .more ⟨.operand, .fix (.ofToken q.current) :: stack, r.advance⟩
      else refuse r .recDot
    else refuse q .recName
  | _ => refuse p .term

/-- Read an operator after `t`, or pass on. -/
def stepOperators (t : SyntaxTree) (action : Option Ident) (stack : List Frame) (p : Parser) :
    Step :=
  match p.current.kind with
  | .dot =>
    match action with
    | some a => .more ⟨.operand, .act a :: stack, p.advance⟩
    | none => .stop (.error (.dotAfterTerm p.current)) p
  | .plus => .more ⟨.operand, .sum t :: stack, p.advance⟩
  | .pipe => .more ⟨.operand, .par t :: stack, p.advance⟩
  | .backslash =>
    let q := p.advance
    if q.current.kind = .identifier then
      .more ⟨.operators (.res t (.ofToken q.current)) none, stack, q.advance⟩
    else refuse q .resName
  | .bracketOpen =>
    let q := p.advance
    if q.current.kind = .identifier then
      let r := q.advance
      if r.current.kind = .bracketClose then
        .more ⟨.operators (.rel t (.ofToken q.current)) none, stack, r.advance⟩
      else refuse r .bracketClose
    else refuse q .relName
  | _ => .more ⟨.close t, stack, p⟩

/-- Give `t` to the innermost open construct. -/
def stepClose (t : SyntaxTree) (stack : List Frame) (p : Parser) : Step :=
  match stack with
  | [] => .stop (.ok t) p
  | .paren :: stack =>
    if p.current.kind = .parenClose then .more ⟨.operators t none, stack, p.advance⟩
    else refuse p .parenClose
  | .fix x :: stack => .more ⟨.close (.fix x t), stack, p⟩
  | .act a :: stack => .more ⟨.operators (.act a t) none, stack, p⟩
  | .sum s :: stack => .more ⟨.operators (.sum s t) none, stack, p⟩
  | .par s :: stack => .more ⟨.operators (.par s t) none, stack, p⟩

def step (s : State) : Step :=
  match s.phase with
  | .operand => stepOperand s.stack s.parser
  | .operators t action => stepOperators t action s.stack s.parser
  | .close t => stepClose t s.stack s.parser

/-- What a step makes smaller: the tokens left, else the open constructs, else the phase. -/
def Smaller (s t : State) : Prop :=
  s.parser.remaining < t.parser.remaining ∨
    s.parser = t.parser ∧
      (s.stack.length < t.stack.length ∨ s.stack = t.stack ∧ s.phase.rank < t.phase.rank)

theorem stepOperand_smaller {stack : List Frame} {p : Parser} {s : State}
    (h : stepOperand stack p = .more s) : s.parser.remaining < p.remaining := by
  unfold stepOperand refuse at h
  split at h
  · next hk => cases h; exact remaining_advance_of_kind hk
  · next hk => cases h; exact remaining_advance_of_kind hk
  · next hk => cases h; exact remaining_advance_of_kind hk
  · next hk =>
    have h₁ := remaining_advance_of_kind hk
    dsimp only at h
    split at h
    · next hq =>
      have h₂ := remaining_advance_of_kind hq
      split at h
      · next hr =>
        cases h
        exact Nat.lt_trans (remaining_advance_of_kind hr) (Nat.lt_trans h₂ h₁)
      · simp at h
    · simp at h
  · simp at h

theorem stepOperators_smaller {t : SyntaxTree} {action : Option Ident} {stack : List Frame}
    {p : Parser} {s : State} (h : stepOperators t action stack p = .more s) :
    Smaller s ⟨.operators t action, stack, p⟩ := by
  unfold stepOperators refuse at h
  split at h
  · next hk =>
    split at h
    · cases h; exact .inl (remaining_advance_of_kind hk)
    · simp at h
  · next hk => cases h; exact .inl (remaining_advance_of_kind hk)
  · next hk => cases h; exact .inl (remaining_advance_of_kind hk)
  · next hk =>
    have h₁ := remaining_advance_of_kind hk
    dsimp only at h
    split at h
    · next hq => cases h; exact .inl (Nat.lt_trans (remaining_advance_of_kind hq) h₁)
    · simp at h
  · next hk =>
    have h₁ := remaining_advance_of_kind hk
    dsimp only at h
    split at h
    · next hq =>
      have h₂ := remaining_advance_of_kind hq
      split at h
      · next hr =>
        cases h
        exact .inl (Nat.lt_trans (remaining_advance_of_kind hr) (Nat.lt_trans h₂ h₁))
      · simp at h
    · simp at h
  · cases h; exact .inr ⟨rfl, .inr ⟨rfl, by simp [Phase.rank]⟩⟩

theorem stepClose_smaller {t : SyntaxTree} {stack : List Frame} {p : Parser} {s : State}
    (h : stepClose t stack p = .more s) : Smaller s ⟨.close t, stack, p⟩ := by
  unfold stepClose refuse at h
  split at h
  · simp at h
  · split at h
    · next hk => cases h; exact .inl (remaining_advance_of_kind hk)
    · simp at h
  all_goals cases h; exact .inr ⟨rfl, .inl (by simp)⟩

theorem step_smaller {s t : State} (h : s.step = .more t) : Smaller t s := by
  obtain ⟨phase, stack, p⟩ := s
  cases phase with
  | operand => exact .inl (stepOperand_smaller h)
  | operators u action => exact stepOperators_smaller h
  | close u => exact stepClose_smaller h

/-- Step until there is an answer; the parser after it stands where reading stopped. -/
def run (s : State) : Except ParseError SyntaxTree × Parser :=
  match _h : s.step with
  | .more t => t.run
  | .stop answer p => (answer, p)
termination_by (s.parser.remaining, s.stack.length, s.phase.rank)
decreasing_by
  rcases step_smaller ‹_› with h | ⟨hp, h | ⟨hs, h⟩⟩
  · exact .left _ _ h
  · rw [hp]; exact .right _ (.left _ _ h)
  · rw [hp, hs]; exact .right _ (.right _ h)

end State

/-- Read one term. Reading stops at the first token that nothing continues with, or at the one
that is refused, which stays current. -/
def term (p : Parser) : Except ParseError SyntaxTree × Parser := State.run ⟨.operand, [], p⟩

/-- Read one term that the text ends with. -/
def wholeTerm (p : Parser) : Except ParseError SyntaxTree × Parser :=
  match p.term with
  | (.ok t, q) => if q.atEnd then (.ok t, q) else (.error (.trailing q.current), q)
  | (.error e, q) => (.error e, q)

end Parser

namespace SyntaxTree

/-- The tree that a whole text is written as. -/
def ofText (s : String) : Except ParseError SyntaxTree := (Parser.ofText s).wholeTerm.1

/-- The tree that a text starts with; what follows it does not count. -/
def ofTextStart (s : String) : Except ParseError SyntaxTree := (Parser.ofText s).term.1

end SyntaxTree

end Guardedness
