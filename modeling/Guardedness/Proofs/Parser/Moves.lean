import Guardedness.Proofs.Parser.Ahead
import Guardedness.Proofs.Parser.Grammar

/-!
# What a parser does with its tokens

A parser amid a term is a machine with a lexer inside. What it does can be told without the lexer,
by the tokens it reads and the one that is next where it stops.

**A move** (`Move`) reads some tokens and leads to another phase and another stack. Each step that
does not stop is a move (`State.does_step`), and where the tokens are those of a move it is made
(`State.step_of_move`). A parser *fails* (`Fails`) when the tokens are not those of a move: it has
read the tokens before the one that is missing something.

**A course** (`Course`) is moves up to the answer. A run takes the course of the tokens that it
passes (`State.course_run`), and these tokens and the next one settle it (`Course.run_eq`). The next
one is only looked at to see whether it is an operator, so a term may as well be followed by any
other token that is none (`Course.before`).
-/

namespace Guardedness

namespace Parser

open Grammar (Infix isOperator)

/-! ## Reading past several tokens -/

variable {p q r : Parser} {us ts : List Token} {x y : Token} {phase phase' : Phase}
  {stack stack' : List Frame} {t : SyntaxTree} {e : ParseError}
  {answer : Except ParseError SyntaxTree}

theorem Passes.append (h : Passes p us q) (h' : Passes q ts r) : Passes p (us ++ ts) r := by
  induction h with
  | refl => exact h'
  | cons hne _ ih => exact .cons hne (ih h')

theorem Passes.split (h : Passes p (us ++ ts) r) : ∃ q, Passes p us q ∧ Passes q ts r := by
  induction us generalizing p with
  | nil => exact ⟨p, .refl p, h⟩
  | cons u us ih =>
    cases h with
    | cons hne h =>
      obtain ⟨q, hus, hts⟩ := ih h
      exact ⟨q, .cons hne hus, hts⟩

/-- The token that is current before `ts` are read, if `x` is current after them. -/
def first (ts : List Token) (x : Token) : Token := ts.head?.getD x

@[simp] theorem first_nil : first [] x = x := rfl

@[simp] theorem first_cons : first (y :: ts) x = y := rfl

theorem Passes.current_eq (h : Passes p ts q) : p.current = first ts q.current := by
  cases h <;> rfl

theorem passes_one (h : p.current.kind ≠ .endOfInput) : Passes p [p.current] p.advance :=
  .cons h (.refl _)

@[simp] theorem passes_nil : Passes p [] q ↔ q = p := by
  constructor
  · rintro ⟨⟩
    rfl
  · rintro rfl
    exact .refl q

@[simp] theorem passes_cons : Passes p (x :: ts) q ↔
    p.current.kind ≠ .endOfInput ∧ p.current = x ∧ Passes p.advance ts q := by
  constructor
  · rintro (_ | ⟨hne, h⟩)
    exact ⟨hne, rfl, h⟩
  · rintro ⟨hne, rfl, h⟩
    exact .cons hne h

/-- The construct that an operator behind `u` opens. -/
def Frame.ofInfix (op : Infix) (u : SyntaxTree) : Frame :=
  match op with
  | .sum => .sum u
  | .par => .par u

/-! ## Moves -/

/-- In a phase, with some constructs open, the tokens `us` are read, `x` is next, and another phase
with other constructs open begins. -/
inductive Move : Phase → List Frame → (us : List Token) → (x : Token) → Phase → List Frame → Prop
  | paren {o x : Token} {stack : List Frame} (ho : o.kind = .parenOpen) :
    Move .operand stack [o] x .operand (.paren :: stack)
  | name {a x : Token} {stack : List Frame} (ha : a.kind = .identifier) :
    Move .operand stack [a] x (.operators (.var (.ofToken a)) (some (.ofToken a))) stack
  | nil {o x : Token} {stack : List Frame} (ho : o.kind = .keyword .nilWord) :
    Move .operand stack [o] x (.close .nil) stack
  | fix {o a d x : Token} {stack : List Frame} (ho : o.kind = .keyword .recWord)
    (ha : a.kind = .identifier) (hd : d.kind = .dot) :
    Move .operand stack [o, a, d] x .operand (.fix (.ofToken a) :: stack)
  | act {o x : Token} {t : SyntaxTree} {a : Ident} {stack : List Frame} (ho : o.kind = .dot) :
    Move (.operators t (some a)) stack [o] x .operand (.act a :: stack)
  | sum {o x : Token} {t : SyntaxTree} {action : Option Ident} {stack : List Frame}
    (ho : o.kind = .plus) : Move (.operators t action) stack [o] x .operand (.sum t :: stack)
  | par {o x : Token} {t : SyntaxTree} {action : Option Ident} {stack : List Frame}
    (ho : o.kind = .pipe) : Move (.operators t action) stack [o] x .operand (.par t :: stack)
  | res {o a x : Token} {t : SyntaxTree} {action : Option Ident} {stack : List Frame}
    (ho : o.kind = .backslash) (ha : a.kind = .identifier) :
    Move (.operators t action) stack [o, a] x (.operators (.res t (.ofToken a)) none) stack
  | rel {o a c x : Token} {t : SyntaxTree} {action : Option Ident} {stack : List Frame}
    (ho : o.kind = .bracketOpen) (ha : a.kind = .identifier) (hc : c.kind = .bracketClose) :
    Move (.operators t action) stack [o, a, c] x (.operators (.rel t (.ofToken a)) none) stack
  | pass {x : Token} {t : SyntaxTree} {action : Option Ident} {stack : List Frame}
    (hx : isOperator x.kind = false) : Move (.operators t action) stack [] x (.close t) stack
  | closeParen {c x : Token} {t : SyntaxTree} {stack : List Frame} (hc : c.kind = .parenClose) :
    Move (.close t) (.paren :: stack) [c] x (.operators t none) stack
  | closeFix {x : Token} {t : SyntaxTree} {y : Ident} {stack : List Frame} :
    Move (.close t) (.fix y :: stack) [] x (.close (.fix y t)) stack
  | closeAct {x : Token} {t : SyntaxTree} {a : Ident} {stack : List Frame} :
    Move (.close t) (.act a :: stack) [] x (.operators (.act a t) none) stack
  | closeSum {x : Token} {t s : SyntaxTree} {stack : List Frame} :
    Move (.close t) (.sum s :: stack) [] x (.operators (.sum s t) none) stack
  | closePar {x : Token} {t s : SyntaxTree} {stack : List Frame} :
    Move (.close t) (.par s :: stack) [] x (.operators (.par s t) none) stack

/-- The error of finding `x` where something else was expected. -/
def refusal (expected : Expected) (x : Token) : ParseError :=
  match x.kind with
  | .endOfInput => .endOfInput expected
  | .illegal => .illegal x
  | _ => .unexpected expected x

/-- Where a term can begin. -/
def isStart : Token.Kind → Bool
  | .parenOpen | .identifier | .keyword _ => true
  | _ => false

/-- In a phase, with some constructs open, the tokens `us` are read, and `x` is refused. -/
inductive Fails : Phase → List Frame → (us : List Token) → (x : Token) → ParseError → Prop
  | term {x : Token} {stack : List Frame} (hx : isStart x.kind = false) :
    Fails .operand stack [] x (refusal .term x)
  | recName {o x : Token} {stack : List Frame} (ho : o.kind = .keyword .recWord)
    (hx : x.kind ≠ .identifier) : Fails .operand stack [o] x (refusal .recName x)
  | recDot {o a x : Token} {stack : List Frame} (ho : o.kind = .keyword .recWord)
    (ha : a.kind = .identifier) (hx : x.kind ≠ .dot) :
    Fails .operand stack [o, a] x (refusal .recDot x)
  | dot {x : Token} {t : SyntaxTree} {stack : List Frame} (hx : x.kind = .dot) :
    Fails (.operators t none) stack [] x (.dotAfterTerm x)
  | resName {o x : Token} {t : SyntaxTree} {action : Option Ident} {stack : List Frame}
    (ho : o.kind = .backslash) (hx : x.kind ≠ .identifier) :
    Fails (.operators t action) stack [o] x (refusal .resName x)
  | relName {o x : Token} {t : SyntaxTree} {action : Option Ident} {stack : List Frame}
    (ho : o.kind = .bracketOpen) (hx : x.kind ≠ .identifier) :
    Fails (.operators t action) stack [o] x (refusal .relName x)
  | bracketClose {o a x : Token} {t : SyntaxTree} {action : Option Ident} {stack : List Frame}
    (ho : o.kind = .bracketOpen) (ha : a.kind = .identifier) (hx : x.kind ≠ .bracketClose) :
    Fails (.operators t action) stack [o, a] x (refusal .bracketClose x)
  | parenClose {x : Token} {t : SyntaxTree} {stack : List Frame} (hx : x.kind ≠ .parenClose) :
    Fails (.close t) (.paren :: stack) [] x (refusal .parenClose x)

/-- What a step comes to, told by the tokens that it reads. -/
inductive Does (s : State) : Step → Prop
  | more {us : List Token} {s' : State} (passes : Passes s.parser us s'.parser)
    (move : Move s.phase s.stack us s'.parser.current s'.phase s'.stack) : Does s (.more s')
  | done {t : SyntaxTree} (phase : s.phase = .close t) (stack : s.stack = []) :
    Does s (.stop (.ok t) s.parser)
  | fails {us : List Token} {q : Parser} {e : ParseError} (passes : Passes s.parser us q)
    (fails : Fails s.phase s.stack us q.current e) : Does s (.stop (.error e) q)

namespace State

theorem refuse_eq (p : Parser) (expected : Expected) :
    refuse p expected = .stop (.error (refusal expected p.current)) p := rfl

theorem does_stepOperand (stack : List Frame) (p : Parser) :
    Does ⟨.operand, stack, p⟩ (stepOperand stack p) := by
  have one {k : Token.Kind} (hk : p.current.kind = k) (hne : k ≠ .endOfInput := by decide) :
      Passes p [p.current] p.advance := passes_one (hk ▸ hne)
  unfold stepOperand
  split
  · next hk => exact .more (one hk) (.paren hk)
  · next hk => exact .more (one hk) (.name hk)
  · next hk => exact .more (one hk) (.nil hk)
  · next hk =>
    dsimp only
    split
    · next hname =>
      have two := (one hk).append (passes_one (p := p.advance) (by simp [hname]))
      split
      · next hdot =>
        exact .more (two.append (passes_one (by simp [hdot]))) (.fix hk hname hdot)
      · next hdot => exact .fails two (.recDot hk hname hdot)
    · next hname => exact .fails (one hk) (.recName hk hname)
  · next hparen hname hnil hrec =>
    refine .fails (.refl p) (.term ?_)
    cases hk : p.current.kind with
    | keyword w => cases w <;> simp_all
    | _ => simp_all [isStart]

theorem does_stepOperators (t : SyntaxTree) (action : Option Ident) (stack : List Frame)
    (p : Parser) : Does ⟨.operators t action, stack, p⟩ (stepOperators t action stack p) := by
  have one {k : Token.Kind} (hk : p.current.kind = k) (hne : k ≠ .endOfInput := by decide) :
      Passes p [p.current] p.advance := passes_one (hk ▸ hne)
  unfold stepOperators
  split
  · next hk =>
    cases action with
    | some a => exact .more (one hk) (.act hk)
    | none => exact .fails (.refl p) (.dot hk)
  · next hk => exact .more (one hk) (.sum hk)
  · next hk => exact .more (one hk) (.par hk)
  · next hk =>
    dsimp only
    split
    · next hname =>
      exact .more ((one hk).append (passes_one (p := p.advance) (by simp [hname]))) (.res hk hname)
    · next hname => exact .fails (one hk) (.resName hk hname)
  · next hk =>
    dsimp only
    split
    · next hname =>
      have two := (one hk).append (passes_one (p := p.advance) (by simp [hname]))
      split
      · next hclose =>
        exact .more (two.append (passes_one (by simp [hclose]))) (.rel hk hname hclose)
      · next hclose => exact .fails two (.bracketClose hk hname hclose)
    · next hname => exact .fails (one hk) (.relName hk hname)
  · next hdot hplus hpipe hres hrel =>
    refine .more (.refl p) (.pass ?_)
    cases hk : p.current.kind <;> simp_all [isOperator]

theorem does_stepClose (t : SyntaxTree) (stack : List Frame) (p : Parser) :
    Does ⟨.close t, stack, p⟩ (stepClose t stack p) := by
  unfold stepClose
  split
  · exact .done rfl rfl
  · split
    · next hk => exact .more (passes_one (by simp [hk])) (.closeParen hk)
    · next hk => exact .fails (.refl p) (.parenClose hk)
  · exact .more (.refl p) .closeFix
  · exact .more (.refl p) .closeAct
  · exact .more (.refl p) .closeSum
  · exact .more (.refl p) .closePar

/-- A step is a move, the end, or a failure. -/
theorem does_step (s : State) : Does s s.step := by
  obtain ⟨phase, stack, p⟩ := s
  cases phase with
  | operand => exact does_stepOperand stack p
  | operators t action => exact does_stepOperators t action stack p
  | close t => exact does_stepClose t stack p

theorem step_of_move (h : Move phase stack us q.current phase' stack') (hp : Passes p us q) :
    step ⟨phase, stack, p⟩ = .more ⟨phase', stack', q⟩ := by
  cases h with
  | pass hx =>
    obtain rfl := passes_nil.mp hp
    cases hk : q.current.kind <;> simp_all [step, stepOperators, isOperator]
  | closeFix | closeAct | closeSum | closePar =>
    obtain rfl := passes_nil.mp hp
    rfl
  | _ => simp_all [step, stepOperand, stepOperators, stepClose]

theorem step_of_fails (h : Fails phase stack us q.current e) (hp : Passes p us q) :
    step ⟨phase, stack, p⟩ = .stop (.error e) q := by
  cases h with
  | term hx =>
    obtain rfl := passes_nil.mp hp
    cases hk : q.current.kind <;> simp_all [step, stepOperand, isStart, refuse_eq]
  | _ => simp_all [step, stepOperators, stepOperand, stepClose, refuse_eq]

end State

theorem State.run_more {s s' : State} (h : s.step = .more s') : s.run = s'.run := by
  rw [run]
  split
  · next h' => rw [h] at h'; cases h'; rfl
  · next h' => rw [h] at h'; cases h'

theorem State.run_stop {s : State} (h : s.step = .stop answer q) : s.run = (answer, q) := by
  rw [run]
  split
  · next h' => rw [h] at h'; cases h'
  · next h' => rw [h] at h'; cases h'; rfl

/-- A run goes on after a move. -/
theorem Move.run_eq (h : Move phase stack us q.current phase' stack') (hp : Passes p us q) :
    State.run ⟨phase, stack, p⟩ = State.run ⟨phase', stack', q⟩ :=
  State.run_more (State.step_of_move h hp)

/-! ## Courses -/

/-- In a phase, with some constructs open, the tokens `ts` are read, `x` is next, and this is the
answer. -/
inductive Course : Phase → List Frame → (ts : List Token) → (x : Token) →
    Except ParseError SyntaxTree → Prop
  | done {t : SyntaxTree} {x : Token} : Course (.close t) [] [] x (.ok t)
  | fails {phase : Phase} {stack : List Frame} {us : List Token} {x : Token} {e : ParseError}
    (fails : Fails phase stack us x e) : Course phase stack us x (.error e)
  | move {phase phase' : Phase} {stack stack' : List Frame} {us ts : List Token} {x : Token}
    {answer : Except ParseError SyntaxTree} (move : Move phase stack us (first ts x) phase' stack')
    (rest : Course phase' stack' ts x answer) : Course phase stack (us ++ ts) x answer

/-- A run takes a course. -/
theorem State.course_run (s : State) : ∃ ts, Passes s.parser ts s.run.2 ∧
    Course s.phase s.stack ts s.run.2.current s.run.1 := by
  fun_induction run s with
  | case1 s s' h ih =>
    obtain ⟨ts, hts, course⟩ := ih
    have does := s.does_step
    rw [h] at does
    obtain ⟨passes, move⟩ := does
    rw [hts.current_eq] at move
    exact ⟨_, passes.append hts, .move move course⟩
  | case2 s answer p h =>
    have does := s.does_step
    rw [h] at does
    cases does with
    | done phase stack =>
      rw [phase, stack]
      exact ⟨[], .refl _, .done⟩
    | fails passes fails => exact ⟨_, passes, .fails fails⟩

/-- The tokens of a course and the next one settle the answer. -/
theorem Course.run_eq (h : Course phase stack ts x answer) (hp : Passes p ts q)
    (hx : q.current = x) : State.run ⟨phase, stack, p⟩ = (answer, q) := by
  induction h generalizing p with
  | done =>
    obtain rfl := passes_nil.mp hp
    exact State.run_stop rfl
  | fails fails =>
    subst hx
    exact State.run_stop (State.step_of_fails fails hp)
  | move move rest ih =>
    obtain ⟨r, hus, hts⟩ := hp.split
    rw [← hx, ← hts.current_eq] at move
    exact (move.run_eq hus).trans (ih hts hx)

theorem Course.ne_end (h : Course phase stack ts x answer) : ∀ y ∈ ts, y.kind ≠ .endOfInput := by
  induction h with
  | done => exact List.forall_mem_nil _
  | fails fails => cases fails <;> simp_all
  | move move _ ih =>
    refine List.forall_mem_append.mpr ⟨?_, ih⟩
    cases move <;> simp_all

/-! ## Courses of terms -/

theorem Move.ne_nil (h : Move .operand stack us x phase' stack') : us ≠ [] := by
  cases h <;> simp

theorem Course.ne_nil (h : Course .operand stack ts x (.ok t)) : ts ≠ [] := by
  cases h with
  | move move rest => simp [move.ne_nil]

/-- What is next is only looked at to see that it is no operator. -/
theorem Move.before (h : Move phase stack us x phase' stack') (hy : isOperator y.kind = false) :
    Move phase stack us y phase' stack' := by
  cases h with
  | pass => exact .pass hy
  | paren ho => exact .paren ho
  | name ha => exact .name ha
  | nil ho => exact .nil ho
  | fix ho ha hd => exact .fix ho ha hd
  | act ho => exact .act ho
  | sum ho => exact .sum ho
  | par ho => exact .par ho
  | res ho ha => exact .res ho ha
  | rel ho ha hc => exact .rel ho ha hc
  | closeParen hc => exact .closeParen hc
  | closeFix => exact .closeFix
  | closeAct => exact .closeAct
  | closeSum => exact .closeSum
  | closePar => exact .closePar

/-- A term may stand before any token that is no operator. -/
theorem Course.before (h : Course phase stack ts x (.ok t)) (hy : isOperator y.kind = false) :
    Course phase stack ts y (.ok t) := by
  generalize ha : Except.ok t = answer at h
  induction h with
  | done =>
    cases ha
    exact .done
  | fails => cases ha
  | @move _ _ _ _ us ts x _ move rest ih =>
    refine .move ?_ (ih ha)
    cases ts with
    | nil => exact move.before hy
    | cons => exact move

/-- A parser that reads a term takes the course of the tokens that it passes. -/
theorem exists_course (h : p.term = (answer, q)) :
    ∃ ts, Passes p ts q ∧ Course .operand [] ts q.current answer := by
  have hrun : State.run ⟨.operand, [], p⟩ = (answer, q) := h
  have hcourse := State.course_run ⟨.operand, [], p⟩
  rwa [hrun] at hcourse

/-- A whole term is a term with nothing but the end behind it. -/
theorem wholeTerm_eq (h : p.term = (answer, q)) :
    p.wholeTerm =
      (answer.bind fun t => if q.atEnd then .ok t else .error (.trailing q.current), q) := by
  rw [wholeTerm, h]
  cases answer with
  | error e => rfl
  | ok t => cases hq : q.atEnd <;> simp [Except.bind, hq]

end Parser

end Guardedness
