import Guardedness.Proofs.Parser.Reading
import Mathlib.Data.List.Chain
import Mathlib.Logic.Relation

/-!
# Reading by recursive descent

The parser keeps the constructs that are open on a stack. A reader of terms can as well call itself
for every operand, and then it has to be seen that it comes to an end: there is an end token behind
every text for ever, so that more calls could always be made there.

**One call** (`Call.body`) is told by the tokens it reads itself and the calls it makes on the way:
behind `(`, behind `rec x .`, and behind a dot, a sum and a composition. A loop reads the operators,
and each of its turns counts as a call of its own (`Call.operators`).

**Fewer tokens** (`Starts.goesOn`). Something is read before each call that is made, and no call
gives back what it has read. That is so even at the end of the text, since no end token is ever
read. So calls within calls cannot be more than there are tokens.

**The same answer.** What the parser makes of a term with other constructs open around it is what it
makes of the term alone, handed to these (`State.run_under`). Hence a call comes to the answer of
the parser if the calls that it makes do (`Call.run_body`), and with more fuel than there are tokens
all of them come to an answer (`descend_of_lt`).
-/

namespace Guardedness

namespace Parser

open Relation (TransGen ReflTransGen)

/-- An answer, and the parser where reading stopped. -/
abbrev Answer := Except ParseError SyntaxTree × Parser

/-- Go on from a tree. An error is kept. -/
def Answer.andThen : Answer → (SyntaxTree → Parser → Answer) → Answer
  | (.ok t, q), next => next t q
  | (.error e, q), _ => (.error e, q)

/-! ## Calls -/

/-- What a reader by recursive descent calls itself for. -/
inductive Call where
  | term (p : Parser)
  /-- A turn of the loop that reads the operators after `t`. -/
  | operators (t : SyntaxTree) (action : Option Ident) (p : Parser)

/-- What a call does: it comes to an answer, or makes another call and goes on from its answer. It
fails where a call that it makes fails. -/
inductive Body where
  | answer (a : Answer)
  | call (x : Call) (next : SyntaxTree → Parser → Body)

namespace Body

/-- A last call, whose answer is the answer. -/
def last (x : Call) : Body := .call x fun t q => .answer (.ok t, q)

/-- The operand of an operator is called for, and makes `build` of it before the next turn. -/
def operand (p : Parser) (build : SyntaxTree → SyntaxTree) : Body :=
  .call (.term p) fun u q => .last (.operators (build u) none q)

def refuse (p : Parser) (e : Expected) : Body := .answer (.error (p.unexpected e), p)

/-- What a body comes to if `f` answers the calls that it makes, or does not answer one of them. -/
def run (f : Call → Option Answer) : Body → Option Answer
  | answer a => some a
  | call x next =>
    match f x with
    | some (.ok t, q) => (next t q).run f
    | some (.error e, q) => some (.error e, q)
    | none => none

/-- The calls that a body makes if `f` answers them. -/
def calls (f : Call → Answer) : Body → List Call
  | answer _ => []
  | call x next =>
    x :: match f x with
    | (.ok t, q) => (next t q).calls f
    | (.error _, _) => []

end Body

namespace Call

def parser : Call → Parser
  | term p => p
  | operators _ _ p => p

/-- The tokens that are left to a call, without the end token. -/
def left (x : Call) : Nat := x.parser.ahead.length

/-- Read the start of a term, with the terms that it holds, and then operators. -/
def bodyOfTerm (p : Parser) : Body :=
  match p.current.kind with
  | .parenOpen =>
    .call (.term p.advance) fun t q =>
      if q.current.kind = .parenClose then .last (.operators t none q.advance)
      else .refuse q .parenClose
  | .identifier =>
    let x := Ident.ofToken p.current
    .last (.operators (.var x) (some x) p.advance)
  | .keyword .nilWord => .answer (.ok .nil, p.advance)
  | .keyword .recWord =>
    let q := p.advance
    if q.current.kind = .identifier then
      let r := q.advance
      if r.current.kind = .dot then
        .call (.term r.advance) fun t s => .answer (.ok (.fix (.ofToken q.current) t), s)
      else .refuse r .recDot
    else .refuse q .recName
  | _ => .refuse p .term

/-- Read an operator after `t` with its operand, and go on with the loop, or leave it. -/
def bodyOfOperators (t : SyntaxTree) (action : Option Ident) (p : Parser) : Body :=
  match p.current.kind with
  | .dot =>
    match action with
    | some a => .operand p.advance (.act a)
    | none => .answer (.error (.dotAfterTerm p.current), p)
  | .plus => .operand p.advance (.sum t)
  | .pipe => .operand p.advance (.par t)
  | .backslash =>
    let q := p.advance
    if q.current.kind = .identifier then
      .last (.operators (.res t (.ofToken q.current)) none q.advance)
    else .refuse q .resName
  | .bracketOpen =>
    let q := p.advance
    if q.current.kind = .identifier then
      let r := q.advance
      if r.current.kind = .bracketClose then
        .last (.operators (.rel t (.ofToken q.current)) none r.advance)
      else .refuse r .bracketClose
    else .refuse q .relName
  | _ => .answer (.ok t, p)

def body : Call → Body
  | term p => bodyOfTerm p
  | operators t action p => bodyOfOperators t action p

/-- Where the parser starts with what is called for, and nothing open around it. -/
def start : Call → State
  | term p => ⟨.operand, [], p⟩
  | operators t action p => ⟨.operators t action, [], p⟩

/-- What the parser makes of what is called for. -/
def answer (x : Call) : Answer := x.start.run

end Call

/-- A reader by recursive descent that gives up when calls within calls are more than `fuel`, where
the turns of a loop are counted as if each were within the last one. -/
def descend : (fuel : Nat) → Call → Option Answer
  | 0, _ => none
  | fuel + 1, x => x.body.run (descend fuel)

/-- In the course of the call `x` the call `y` is made. -/
def Starts (x y : Call) : Prop := y ∈ x.body.calls Call.answer

/-- A step leads from one state to another. -/
def State.Leads (s s' : State) : Prop := s.step = .more s'

/-- A term is read from `p` on in a finite number of calls, and without the end token. -/
structure Descends (p : Parser) : Prop where
  -- Calls within calls, and constructs that are open, are no more than there are tokens.
  fewer : ∀ x, TransGen Starts (.term p) x → x.left < p.ahead.length
  depth : ∀ calls, List.IsChain Starts (.term p :: calls) → calls.length + 1 ≤ p.ahead.length + 1
  stack : ∀ s, ReflTransGen State.Leads ⟨.operand, [], p⟩ s →
    s.stack.length + s.parser.ahead.length ≤ p.ahead.length
  enough : ∀ fuel, p.ahead.length < fuel → descend fuel (.term p) = some p.term
  sound : ∀ fuel answer, descend fuel (.term p) = some answer → answer = p.term
  refused : isStart p.current.kind = false →
    (∀ fuel, descend (fuel + 1) (.term p) = some (.error (refusal .term p.current), p)) ∧
    ∀ stack, State.run ⟨.operand, stack, p⟩ = (.error (refusal .term p.current), p)
  -- Whatever is called for, no end token is read on the way.
  call : ∀ x, TransGen Starts (.term p) x → ∃ ts, Passes p ts x.parser
  step : ∀ s, ReflTransGen State.Leads ⟨.operand, [], p⟩ s → ∃ ts, Passes p ts s.parser
  stop : ∃ ts, Passes p ts p.term.2

variable {p q : Parser} {phase phase' : Phase} {stack stack' below : List Frame} {us : List Token}
  {t : SyntaxTree} {e : ParseError} {x y : Call} {next : SyntaxTree → Parser → Body}
  {a : Answer} {fuel : Nat}

/-! ## With other constructs open around -/

theorem Move.under {z : Token} (h : Move phase stack us z phase' stack') :
    Move phase (stack ++ below) us z phase' (stack' ++ below) := by
  cases h with
  | paren ho => exact .paren ho
  | name ha => exact .name ha
  | nil ho => exact .nil ho
  | fix ho ha hd => exact .fix ho ha hd
  | act ho => exact .act ho
  | sum ho => exact .sum ho
  | par ho => exact .par ho
  | res ho ha => exact .res ho ha
  | rel ho ha hc => exact .rel ho ha hc
  | pass hz => exact .pass hz
  | closeParen hc => exact .closeParen hc
  | closeFix => exact .closeFix
  | closeAct => exact .closeAct
  | closeSum => exact .closeSum
  | closePar => exact .closePar

theorem Fails.under {z : Token} (h : Fails phase stack us z e) :
    Fails phase (stack ++ below) us z e := by
  cases h with
  | term hz => exact .term hz
  | recName ho hz => exact .recName ho hz
  | recDot ho ha hz => exact .recDot ho ha hz
  | dot hz => exact .dot hz
  | resName ho hz => exact .resName ho hz
  | relName ho hz => exact .relName ho hz
  | bracketClose ho ha hz => exact .bracketClose ho ha hz
  | parenClose hz => exact .parenClose hz

/-- What is read with some constructs open is read without those at the bottom and handed to them.
-/
theorem State.run_under (s : State) (below : List Frame) :
    State.run ⟨s.phase, s.stack ++ below, s.parser⟩ =
      Answer.andThen s.run fun t q => State.run ⟨.close t, below, q⟩ := by
  fun_induction run s with
  | case1 s s' h ih =>
    have does := s.does_step
    rw [h] at does
    obtain ⟨passes, move⟩ := does
    rw [← ih]
    exact move.under.run_eq passes
  | case2 s answer p h =>
    have does := s.does_step
    rw [h] at does
    cases does with
    | done phase stack =>
      rw [phase, stack]
      rfl
    | fails passes fails => exact State.run_stop (State.step_of_fails fails.under passes)

/-- The operand of an open construct is read alone, and then the construct gets it. -/
theorem State.run_operand (frame : Frame) (p : Parser) :
    State.run ⟨.operand, [frame], p⟩ =
      Answer.andThen (Call.term p).answer fun t q => State.run ⟨.close t, [frame], q⟩ :=
  State.run_under ⟨.operand, [], p⟩ [frame]

/-! ## What a body comes to -/

namespace Body

@[simp] theorem run_last (f : Call → Option Answer) (x : Call) : (last x).run f = f x := by
  rw [last, run]
  split
  · next h => rw [h, run]
  · next h => rw [h]
  · next h => rw [h]

@[simp] theorem calls_answer (f : Call → Answer) (a : Answer) : (answer a).calls f = [] := rfl

@[simp] theorem calls_refuse (f : Call → Answer) (p : Parser) (expected : Expected) :
    (refuse p expected).calls f = [] := rfl

theorem mem_calls_call {f : Call → Answer} : y ∈ (call x next).calls f ↔
    y = x ∨ ∃ t q, f x = (.ok t, q) ∧ y ∈ (next t q).calls f := by
  rw [calls, List.mem_cons]
  obtain ⟨answer, q⟩ := f x
  cases answer <;> simp

@[simp] theorem mem_calls_last {f : Call → Answer} : y ∈ (last x).calls f ↔ y = x := by
  rw [last, mem_calls_call]
  simp [calls]

/-- A body goes on from the answer to a call that it makes. -/
theorem run_call {next' : SyntaxTree → Parser → Answer}
    (h : ∀ t q, (next t q).run (fun y => some y.answer) = some (next' t q)) :
    (call x next).run (fun y => some y.answer) = some (x.answer.andThen next') := by
  rw [run]
  obtain ⟨answer, q⟩ := x.answer
  cases answer with
  | ok t => exact h t q
  | error e => rfl

theorem run_operand {frame : Frame} {build : SyntaxTree → SyntaxTree}
    (h : ∀ u q, State.run ⟨.close u, [frame], q⟩ = State.run ⟨.operators (build u) none, [], q⟩) :
    (operand p build).run (fun y => some y.answer) = some (State.run ⟨.operand, [frame], p⟩) := by
  rw [State.run_operand]
  refine run_call ?_
  intro u q
  rw [run_last, h]
  rfl

/-- What a body comes to is settled by the answers to the calls that it makes. -/
theorem run_congr {f : Call → Option Answer} {g : Call → Answer} (b : Body)
    (h : ∀ y ∈ b.calls g, f y = some (g y)) : b.run f = b.run fun y => some (g y) := by
  induction b with
  | answer a => rfl
  | call x next ih =>
    rw [run, run, h x (mem_calls_call.mpr (.inl rfl))]
    obtain ⟨answer, q, hx⟩ : ∃ answer q, g x = (answer, q) := ⟨_, _, rfl⟩
    rw [hx]
    cases answer with
    | ok t => exact ih t q fun y hy => h y (mem_calls_call.mpr (.inr ⟨t, q, hx, hy⟩))
    | error e => rfl

/-- Calls that are not answered at all cannot lead to a wrong answer. -/
theorem run_of_run {f : Call → Option Answer} {g : Call → Answer}
    (hf : ∀ y a, f y = some a → a = g y) (b : Body) (h : b.run f = some a) :
    (b.run fun y => some (g y)) = some a := by
  induction b with
  | answer _ => exact h
  | call x next ih =>
    rw [run] at h ⊢
    cases hx : f x with
    | none =>
      rw [hx] at h
      cases h
    | some c =>
      rw [hx] at h
      rw [← hf x c hx]
      obtain ⟨answer, q⟩ := c
      cases answer with
      | ok t => exact ih t q h
      | error e => exact h

end Body

/-! ## Every call comes to the answer of the parser -/

theorem State.run_close (t : SyntaxTree) (p : Parser) :
    State.run ⟨.close t, [], p⟩ = (.ok t, p) :=
  State.run_stop rfl

theorem State.run_refuse {s : State} {expected : Expected} (h : s.step = State.refuse p expected) :
    (Body.refuse p expected).run (fun y => some y.answer) = some s.run := by
  rw [State.run_stop h]
  rfl

theorem Call.bodyOfTerm_of_not_start (h : isStart p.current.kind = false) :
    bodyOfTerm p = .refuse p .term := by
  unfold bodyOfTerm
  split
  · next hk => simp [hk, isStart] at h
  · next hk => simp [hk, isStart] at h
  · next hk => simp [hk, isStart] at h
  · next hk => simp [hk, isStart] at h
  · rfl

theorem Call.run_bodyOfTerm (p : Parser) :
    (bodyOfTerm p).run (fun y => some y.answer) = some (Call.term p).answer := by
  unfold bodyOfTerm
  split
  · next hk =>
    rw [answer, start, State.run_parenOpen hk, State.run_operand]
    refine Body.run_call ?_
    intro t q
    split
    · next hclose =>
      rw [Body.run_last, State.run_parenClose hclose]
      rfl
    · next hclose =>
      refine State.run_refuse ?_
      simp [State.step, State.stepClose, hclose]
  · next hk =>
    rw [Body.run_last, answer, answer, start, start, State.run_identifier hk]
  · next hk =>
    -- Behind `nil` the loop is not entered at all.
    rw [answer, start, State.run_nilWord hk, State.run_close]
    rfl
  · next hk =>
    dsimp only
    split
    · next hname =>
      split
      · next hdot =>
        rw [answer, start, State.run_recWord hk hname hdot, State.run_operand]
        refine Body.run_call ?_
        intro t q
        rw [State.run_closeFix, State.run_close]
        rfl
      · next hdot =>
        refine State.run_refuse ?_
        simp [start, State.step, State.stepOperand, hk, hname, hdot]
    · next hname =>
      refine State.run_refuse ?_
      simp [start, State.step, State.stepOperand, hk, hname]
  · next hparen hname hnil hrec =>
    refine State.run_refuse ?_
    simp only [start, State.step, State.stepOperand]

theorem Call.run_bodyOfOperators (t : SyntaxTree) (action : Option Ident) (p : Parser) :
    (bodyOfOperators t action p).run (fun y => some y.answer) =
      some (Call.operators t action p).answer := by
  unfold bodyOfOperators
  split
  · next hk =>
    cases action with
    | none =>
      rw [answer, start, State.run_stop (State.step_of_fails (.dot hk) (.refl p))]
      rfl
    | some a =>
      rw [answer, start, State.run_dot hk]
      exact Body.run_operand fun u q => State.run_closeAct
  · next hk =>
    rw [answer, start, State.run_operator (show p.current.kind = Grammar.Infix.sum.mark from hk)]
    exact Body.run_operand fun u q => State.run_closeOperator .sum
  · next hk =>
    rw [answer, start, State.run_operator (show p.current.kind = Grammar.Infix.par.mark from hk)]
    exact Body.run_operand fun u q => State.run_closeOperator .par
  · next hk =>
    dsimp only
    split
    · next hname =>
      rw [Body.run_last, answer, answer, start, start, State.run_backslash hk hname]
    · next hname =>
      refine State.run_refuse ?_
      simp [start, State.step, State.stepOperators, hk, hname]
  · next hk =>
    dsimp only
    split
    · next hname =>
      split
      · next hclose =>
        rw [Body.run_last, answer, answer, start, start, State.run_bracketOpen hk hname hclose]
      · next hclose =>
        refine State.run_refuse ?_
        simp [start, State.step, State.stepOperators, hk, hname, hclose]
    · next hname =>
      refine State.run_refuse ?_
      simp [start, State.step, State.stepOperators, hk, hname]
  · next hdot hplus hpipe hres hrel =>
    have hstep : (Call.operators t action p).start.step = .more ⟨.close t, [], p⟩ := by
      simp only [start, State.step, State.stepOperators]
    rw [answer, State.run_more hstep, State.run_close]
    rfl

/-- A call comes to the answer of the parser, if the calls that it makes do. -/
theorem Call.run_body (x : Call) : x.body.run (fun y => some y.answer) = some x.answer := by
  cases x with
  | term p => exact run_bodyOfTerm p
  | operators t action p => exact run_bodyOfOperators t action p

/-! ## Fewer tokens -/

/-- The parser has read past at least one token, and past no end token, to get from `p` to `q`. -/
def GoesOn (p q : Parser) : Prop := ∃ ts, ts ≠ [] ∧ Passes p ts q

theorem goesOn_advance (h : p.current.kind ≠ .endOfInput) : GoesOn p p.advance :=
  ⟨_, List.cons_ne_nil _ _, passes_one h⟩

theorem GoesOn.append (h : GoesOn p q) {r : Parser} (h' : Passes q us r) : GoesOn p r := by
  obtain ⟨ts, hne, hts⟩ := h
  exact ⟨ts ++ us, List.append_ne_nil_of_left_ne_nil hne us, hts.append h'⟩

theorem GoesOn.length_lt (h : GoesOn p q) : q.ahead.length < p.ahead.length := by
  obtain ⟨ts, hne, hts⟩ := h
  rw [hts.ahead_eq, List.length_append]
  exact Nat.lt_add_of_pos_left (List.length_pos_iff.mpr hne)

namespace Call

theorem exists_passes {answer : Except ParseError SyntaxTree} (h : x.answer = (answer, q)) :
    ∃ ts, Passes x.parser ts q := by
  obtain ⟨ts, passes, -⟩ := State.course_run x.start
  have hrun : x.start.run = (answer, q) := h
  rw [hrun] at passes
  refine ⟨ts, ?_⟩
  cases x with
  | term => exact passes
  | operators => exact passes

theorem goesOn_of_mem_term (h : y ∈ (bodyOfTerm p).calls answer) : GoesOn p y.parser := by
  have one {k : Token.Kind} (hk : p.current.kind = k) (hne : k ≠ .endOfInput := by decide) :
      GoesOn p p.advance := goesOn_advance (hk ▸ hne)
  unfold bodyOfTerm at h
  split at h
  · next hk =>
    obtain rfl | ⟨t, q, hq, h⟩ := Body.mem_calls_call.mp h
    · exact one hk
    · obtain ⟨ts, hts⟩ := exists_passes hq
      split at h
      · next hclose =>
        obtain rfl := Body.mem_calls_last.mp h
        exact ((one hk).append hts).append (passes_one (by simp [hclose]))
      · simp at h
  · next hk =>
    obtain rfl := Body.mem_calls_last.mp h
    exact one hk
  · simp at h
  · next hk =>
    dsimp only at h
    split at h
    · next hname =>
      have two := (one hk).append (passes_one (p := p.advance) (by simp [hname]))
      split at h
      · next hdot =>
        obtain rfl | ⟨t, q, hq, h⟩ := Body.mem_calls_call.mp h
        · exact two.append (passes_one (by simp [hdot]))
        · simp at h
      · simp at h
    · simp at h
  · simp at h

/-- The next turn of the loop starts where the call for the operand has stopped. -/
theorem goesOn_of_mem_operand {build : SyntaxTree → SyntaxTree} (hq : GoesOn p q)
    (h : y ∈ (Body.operand q build).calls answer) : GoesOn p y.parser := by
  obtain rfl | ⟨u, r, hr, h⟩ := Body.mem_calls_call.mp h
  · exact hq
  · obtain ⟨ts, hts⟩ := exists_passes hr
    obtain rfl := Body.mem_calls_last.mp h
    exact hq.append hts

theorem goesOn_of_mem_operators {action : Option Ident}
    (h : y ∈ (bodyOfOperators t action p).calls answer) : GoesOn p y.parser := by
  have one {k : Token.Kind} (hk : p.current.kind = k) (hne : k ≠ .endOfInput := by decide) :
      GoesOn p p.advance := goesOn_advance (hk ▸ hne)
  unfold bodyOfOperators at h
  split at h
  · next hk =>
    cases action with
    | none => simp at h
    | some a => exact goesOn_of_mem_operand (one hk) h
  · next hk => exact goesOn_of_mem_operand (one hk) h
  · next hk => exact goesOn_of_mem_operand (one hk) h
  · next hk =>
    dsimp only at h
    split at h
    · next hname =>
      obtain rfl := Body.mem_calls_last.mp h
      exact (one hk).append (passes_one (by simp [hname]))
    · simp at h
  · next hk =>
    dsimp only at h
    split at h
    · next hname =>
      have two := (one hk).append (passes_one (p := p.advance) (by simp [hname]))
      split at h
      · next hclose =>
        obtain rfl := Body.mem_calls_last.mp h
        exact two.append (passes_one (by simp [hclose]))
      · simp at h
    · simp at h
  · simp at h

end Call

theorem Starts.goesOn (h : Starts x y) : GoesOn x.parser y.parser := by
  cases x with
  | term p => exact Call.goesOn_of_mem_term h
  | operators t action p => exact Call.goesOn_of_mem_operators h

theorem Starts.left_lt (h : Starts x y) : y.left < x.left := h.goesOn.length_lt

theorem goesOn_of_transGen (h : TransGen Starts x y) : GoesOn x.parser y.parser := by
  induction h with
  | single h => exact h.goesOn
  | tail _ h ih =>
    obtain ⟨ts, -, hts⟩ := h.goesOn
    exact ih.append hts

/-- There are no more calls within calls than there are tokens. -/
theorem length_le_of_isChain {calls : List Call} (h : List.IsChain Starts (x :: calls)) :
    calls.length ≤ x.left := by
  induction calls generalizing x with
  | nil => exact Nat.zero_le _
  | cons y calls ih =>
    obtain ⟨hstarts, hrest⟩ := List.isChain_cons_cons.mp h
    exact Nat.lt_of_le_of_lt (ih hrest) hstarts.left_lt

/-! ## Fuel -/

/-- A call is answered if the fuel is more than the tokens that are left. -/
theorem descend_of_lt (h : x.left < fuel) : descend fuel x = some x.answer := by
  induction fuel generalizing x with
  | zero => exact absurd h (Nat.not_lt_zero _)
  | succ fuel ih =>
    rw [descend, x.body.run_congr, x.run_body]
    intro y hy
    have hstarts : Starts x y := hy
    exact ih (Nat.lt_of_lt_of_le hstarts.left_lt (Nat.le_of_lt_succ h))

/-- Whatever the fuel, no other answer is given. -/
theorem eq_of_descend (h : descend fuel x = some a) : a = x.answer := by
  induction fuel generalizing x a with
  | zero => cases h
  | succ fuel ih =>
    have hbody := Body.run_of_run (fun y a => ih) x.body h
    rw [x.run_body] at hbody
    exact (Option.some.inj hbody).symm

/-! ## Steps -/

theorem Move.length_stack_le {z : Token} (h : Move phase stack us z phase' stack') :
    stack'.length ≤ stack.length + us.length := by
  cases h with
  | closeParen => exact Nat.le_succ_of_le (Nat.le_succ _)
  | _ => simp

theorem State.Leads.exists_passes {s s' : State} (h : s.Leads s') : ∃ us,
    Passes s.parser us s'.parser ∧ s'.stack.length ≤ s.stack.length + us.length := by
  have does := s.does_step
  rw [h] at does
  obtain ⟨passes, move⟩ := does
  exact ⟨_, passes, move.length_stack_le⟩

theorem State.exists_passes_of_leads {s s' : State} (h : ReflTransGen Leads s s') : ∃ ts,
    Passes s.parser ts s'.parser ∧ s'.stack.length ≤ s.stack.length + ts.length := by
  induction h with
  | refl => exact ⟨[], .refl _, Nat.le_refl _⟩
  | tail _ h ih =>
    obtain ⟨ts, hts, hle⟩ := ih
    obtain ⟨us, hus, hle'⟩ := h.exists_passes
    refine ⟨ts ++ us, hts.append hus, ?_⟩
    rw [List.length_append]
    omega

/-- **Reading a term comes to an end at every parser: each call and each turn of a loop has fewer
tokens left than the call that leads to it, so one unit of fuel more than there are tokens is
enough, and more is of no consequence. Where no term can start the parser stays as it is, and an end
token is not read past at all.** -/
theorem term_descends (p : Parser) : Descends p where
  fewer _ h := (goesOn_of_transGen h).length_lt
  depth _ h := Nat.succ_le_succ (length_le_of_isChain h)
  stack s h := by
    obtain ⟨ts, hts, hle⟩ := State.exists_passes_of_leads h
    have hahead : p.ahead = ts ++ s.parser.ahead := hts.ahead_eq
    rw [List.length_nil, Nat.zero_add] at hle
    rw [hahead, List.length_append]
    exact Nat.add_le_add_right hle _
  enough _ h := descend_of_lt h
  sound _ _ h := eq_of_descend h
  refused h := by
    refine ⟨fun fuel => ?_, fun stack => State.run_stop (State.step_of_fails (.term h) (.refl p))⟩
    rw [descend, Call.body, Call.bodyOfTerm_of_not_start h]
    rfl
  call x h := by
    obtain ⟨ts, -, hts⟩ := goesOn_of_transGen h
    exact ⟨ts, hts⟩
  step s h := by
    obtain ⟨ts, hts, -⟩ := State.exists_passes_of_leads h
    exact ⟨ts, hts⟩
  stop := by
    obtain ⟨ts, hts, -⟩ := exists_course (p := p) rfl
    exact ⟨ts, hts⟩

/-- For `((` three calls are enough, the last of which finds the end of the text and reads nothing.
Two are not enough. -/
theorem term_descends_of_open : descend 3 (.term (ofText "((")) = some (ofText "((").term ∧
    (ofText "((").advance.advance.term =
      (.error (.endOfInput .term), (ofText "((").advance.advance) ∧
    descend 2 (.term (ofText "((")) = none := by
  have htwo : (ofText "((").ahead.length = 2 := by
    rw [ahead_of_ne (by decide), ahead_of_ne (by decide), ahead_of_end (by decide)]
    rfl
  have hstart : isStart (ofText "((").advance.advance.current.kind = false := by decide
  refine ⟨(term_descends _).enough 3 (by rw [htwo]; decide), ?_, rfl⟩
  exact ((term_descends _).refused hstart).2 []

end Parser

end Guardedness
