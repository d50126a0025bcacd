import Guardedness.Proofs.Parser.Longest
import Guardedness.Proofs.SyntaxTree
import Mathlib.Data.List.Forall2

/-!
# The parser does not look at places

Where a token stands is written into the names of a tree and into messages, and nowhere else does it
matter.

**Alike** (`Phase.Alike`, `Frame.Alike`). Two parsers amid a term are alike if they hold the same
but for the places of names. If they have tokens of the same spellings in front of them, they make
the same moves (`Move.alike`) and fail in the same way (`Fails.alike`), and so their courses come to
the same answer but for places (`Course.alike`).

**The end token** is told from others by its kind alone. Where it stands is in no message, so that
what a course comes to does not depend on it at all (`Course.at_end`).
-/

namespace Guardedness

/-! ## Without places -/

/-- The token as if it had not been read from any text. -/
def Token.unplaced (t : Token) : Token := { t with span := .none }

/-- The error without the place of the token that is refused. -/
def ParseError.unplaced : ParseError → ParseError
  | unexpected e x => .unexpected e x.unplaced
  | endOfInput e => .endOfInput e
  | illegal x => .illegal x.unplaced
  | dotAfterTerm x => .dotAfterTerm x.unplaced
  | trailing x => .trailing x.unplaced

/-- Two texts are read in the same way, but for places. -/
inductive SameAnswer : Except ParseError SyntaxTree → Except ParseError SyntaxTree → Prop
  | ok {t t' : SyntaxTree} : (t == t') = true → SameAnswer (.ok t) (.ok t')
  | error {e e' : ParseError} : e.unplaced = e'.unplaced → SameAnswer (.error e) (.error e')

namespace Token

def Alike (t t' : Token) : Prop := t.spelling = t'.spelling

variable {t t' : Token} {k : Kind}

theorem Alike.kind_eq (h : t.Alike t') (hk : t.kind = k) : t'.kind = k :=
  (congrArg Prod.fst h).symm.trans hk

theorem Alike.name_eq (h : t.Alike t') : (Ident.ofToken t).name = (Ident.ofToken t').name :=
  congrArg Prod.snd h

theorem Alike.unplaced_eq (h : t.Alike t') : t.unplaced = t'.unplaced := by
  obtain ⟨k, w, span⟩ := t
  obtain ⟨k', w', span'⟩ := t'
  simpa [Alike, unplaced, spelling] using h

end Token

namespace Parser

/-- Two open constructs differ only in where names stand. -/
inductive Frame.Alike : Frame → Frame → Prop
  | paren : Alike .paren .paren
  | fix {x x' : Ident} : x.name = x'.name → Alike (.fix x) (.fix x')
  | act {a a' : Ident} : a.name = a'.name → Alike (.act a) (.act a')
  | sum {s s' : SyntaxTree} : s.proc = s'.proc → Alike (.sum s) (.sum s')
  | par {s s' : SyntaxTree} : s.proc = s'.proc → Alike (.par s) (.par s')

inductive Phase.Alike : Phase → Phase → Prop
  | operand : Alike .operand .operand
  | operators {t t' : SyntaxTree} {action action' : Option Ident} : t.proc = t'.proc →
    action.map Ident.name = action'.map Ident.name →
    Alike (.operators t action) (.operators t' action')
  | close {t t' : SyntaxTree} : t.proc = t'.proc → Alike (.close t) (.close t')

/-- What is next is the end, or has the same spelling. -/
def NextAlike (x x' : Token) : Prop :=
  x.kind = .endOfInput ∧ x'.kind = .endOfInput ∨ x.Alike x'

variable {p p' q q' : Parser} {us us' ts ts' : List Token} {x x' : Token}
  {phase phase' next : Phase} {stack stack' above : List Frame} {e : ParseError}
  {answer : Except ParseError SyntaxTree}

theorem NextAlike.kind_eq (h : NextAlike x x') : x.kind = x'.kind := by
  obtain ⟨hx, hx'⟩ | h := h
  · rw [hx, hx']
  · exact congrArg Prod.fst h

theorem NextAlike.alike (h : NextAlike x x') (hx : x.kind ≠ .endOfInput) : x.Alike x' :=
  h.resolve_left fun hend => hx hend.1

theorem NextAlike.refusal (h : NextAlike x x') (expected : Expected) :
    (refusal expected x).unplaced = (refusal expected x').unplaced := by
  obtain ⟨hx, hx'⟩ | h := h
  · simp only [Parser.refusal, hx, hx']
  · unfold Parser.refusal
    rw [h.kind_eq rfl]
    split <;> simp only [ParseError.unplaced, h.unplaced_eq]

/-- Parsers that are alike make the same moves. -/
theorem Move.alike (h : Move phase stack us x next above) (hphase : phase.Alike phase')
    (hstack : stack.Forall₂ Frame.Alike stack') (hus : us.Forall₂ Token.Alike us')
    (hx : x.kind = x'.kind) : ∃ next' above', Move phase' stack' us' x' next' above' ∧
      next.Alike next' ∧ above.Forall₂ Frame.Alike above' := by
  cases h with
  | paren ho =>
    cases hphase
    obtain _ | ⟨o, ⟨⟩⟩ := hus
    exact ⟨_, _, .paren (o.kind_eq ho), .operand, .cons .paren hstack⟩
  | name ha =>
    cases hphase
    obtain _ | ⟨a, ⟨⟩⟩ := hus
    exact ⟨_, _, .name (a.kind_eq ha), .operators (by simp [SyntaxTree.proc, a.name_eq])
      (by simp [a.name_eq]), hstack⟩
  | nil ho =>
    cases hphase
    obtain _ | ⟨o, ⟨⟩⟩ := hus
    exact ⟨_, _, .nil (o.kind_eq ho), .close rfl, hstack⟩
  | fix ho ha hd =>
    cases hphase
    obtain _ | ⟨o, _ | ⟨a, _ | ⟨d, ⟨⟩⟩⟩⟩ := hus
    exact ⟨_, _, .fix (o.kind_eq ho) (a.kind_eq ha) (d.kind_eq hd), .operand,
      .cons (.fix a.name_eq) hstack⟩
  | @act _ _ _ a _ ho =>
    obtain _ | @⟨_, t', _, action', ht, ha⟩ := hphase
    obtain _ | ⟨o, ⟨⟩⟩ := hus
    obtain ⟨a', rfl, ha'⟩ := Option.map_eq_some_iff.mp ha.symm
    exact ⟨_, _, .act (o.kind_eq ho), .operand, .cons (.act ha'.symm) hstack⟩
  | sum ho =>
    obtain _ | ⟨ht, -⟩ := hphase
    obtain _ | ⟨o, ⟨⟩⟩ := hus
    exact ⟨_, _, .sum (o.kind_eq ho), .operand, .cons (.sum ht) hstack⟩
  | par ho =>
    obtain _ | ⟨ht, -⟩ := hphase
    obtain _ | ⟨o, ⟨⟩⟩ := hus
    exact ⟨_, _, .par (o.kind_eq ho), .operand, .cons (.par ht) hstack⟩
  | res ho ha =>
    obtain _ | ⟨ht, -⟩ := hphase
    obtain _ | ⟨o, _ | ⟨a, ⟨⟩⟩⟩ := hus
    exact ⟨_, _, .res (o.kind_eq ho) (a.kind_eq ha),
      .operators (by simpa [SyntaxTree.proc, a.name_eq] using ht) rfl, hstack⟩
  | rel ho ha hc =>
    obtain _ | ⟨ht, -⟩ := hphase
    obtain _ | ⟨o, _ | ⟨a, _ | ⟨c, ⟨⟩⟩⟩⟩ := hus
    exact ⟨_, _, .rel (o.kind_eq ho) (a.kind_eq ha) (c.kind_eq hc),
      .operators (by simpa [SyntaxTree.proc, a.name_eq] using ht) rfl, hstack⟩
  | pass hop =>
    -- The one move that asks for the token behind those that it reads.
    obtain _ | ⟨ht, -⟩ := hphase
    cases hus
    exact ⟨_, _, .pass (hx ▸ hop), .close ht, hstack⟩
  | closeParen hc =>
    obtain _ | _ | ⟨ht⟩ := hphase
    obtain _ | ⟨⟨⟩, hstack⟩ := hstack
    obtain _ | ⟨c, ⟨⟩⟩ := hus
    exact ⟨_, _, .closeParen (c.kind_eq hc), .operators ht rfl, hstack⟩
  | closeFix =>
    obtain _ | _ | ⟨ht⟩ := hphase
    obtain _ | ⟨⟨hy⟩, hstack⟩ := hstack
    cases hus
    exact ⟨_, _, .closeFix, .close (by simp_all [SyntaxTree.proc]), hstack⟩
  | closeAct =>
    obtain _ | _ | ⟨ht⟩ := hphase
    obtain _ | ⟨⟨ha⟩, hstack⟩ := hstack
    cases hus
    exact ⟨_, _, .closeAct, .operators (by simp_all [SyntaxTree.proc]) rfl, hstack⟩
  | closeSum =>
    obtain _ | _ | ⟨ht⟩ := hphase
    obtain _ | ⟨⟨hs⟩, hstack⟩ := hstack
    cases hus
    exact ⟨_, _, .closeSum, .operators (by simp_all [SyntaxTree.proc]) rfl, hstack⟩
  | closePar =>
    obtain _ | _ | ⟨ht⟩ := hphase
    obtain _ | ⟨⟨hs⟩, hstack⟩ := hstack
    cases hus
    exact ⟨_, _, .closePar, .operators (by simp_all [SyntaxTree.proc]) rfl, hstack⟩

theorem Fails.alike (h : Fails phase stack us x e) (hphase : phase.Alike phase')
    (hstack : stack.Forall₂ Frame.Alike stack') (hus : us.Forall₂ Token.Alike us')
    (hx : NextAlike x x') : ∃ e', Fails phase' stack' us' x' e' ∧ e.unplaced = e'.unplaced := by
  have hkind {k : Token.Kind} (hne : x.kind ≠ k) : x'.kind ≠ k := hx.kind_eq ▸ hne
  cases h with
  | term hstart =>
    cases hphase
    cases hus
    exact ⟨_, .term (hx.kind_eq ▸ hstart), hx.refusal .term⟩
  | recName ho hne =>
    cases hphase
    obtain _ | ⟨o, ⟨⟩⟩ := hus
    exact ⟨_, .recName (o.kind_eq ho) (hkind hne), hx.refusal .recName⟩
  | recDot ho ha hne =>
    cases hphase
    obtain _ | ⟨o, _ | ⟨a, ⟨⟩⟩⟩ := hus
    exact ⟨_, .recDot (o.kind_eq ho) (a.kind_eq ha) (hkind hne), hx.refusal .recDot⟩
  | dot hdot =>
    obtain _ | ⟨ht, ha⟩ := hphase
    obtain rfl := Option.map_eq_none_iff.mp ha.symm
    cases hus
    have h := hx.alike (by simp [hdot])
    exact ⟨_, .dot (h.kind_eq hdot), congrArg ParseError.dotAfterTerm h.unplaced_eq⟩
  | resName ho hne =>
    obtain _ | ⟨ht, -⟩ := hphase
    obtain _ | ⟨o, ⟨⟩⟩ := hus
    exact ⟨_, .resName (o.kind_eq ho) (hkind hne), hx.refusal .resName⟩
  | relName ho hne =>
    obtain _ | ⟨ht, -⟩ := hphase
    obtain _ | ⟨o, ⟨⟩⟩ := hus
    exact ⟨_, .relName (o.kind_eq ho) (hkind hne), hx.refusal .relName⟩
  | bracketClose ho ha hne =>
    obtain _ | ⟨ht, -⟩ := hphase
    obtain _ | ⟨o, _ | ⟨a, ⟨⟩⟩⟩ := hus
    exact ⟨_, .bracketClose (o.kind_eq ho) (a.kind_eq ha) (hkind hne), hx.refusal .bracketClose⟩
  | parenClose hne =>
    obtain _ | _ | ⟨ht⟩ := hphase
    obtain _ | ⟨⟨⟩, hstack⟩ := hstack
    cases hus
    exact ⟨_, .parenClose (hkind hne), hx.refusal .parenClose⟩

theorem nextAlike_first (hts : ts.Forall₂ Token.Alike ts') (hx : NextAlike x x') :
    NextAlike (first ts x) (first ts' x') := by
  cases hts with
  | nil => exact hx
  | cons h _ => exact .inr h

theorem exists_append_of_alike (h : (us ++ ts).Forall₂ Token.Alike ts') : ∃ us' ts'',
    us.Forall₂ Token.Alike us' ∧ ts.Forall₂ Token.Alike ts'' ∧ ts' = us' ++ ts'' := by
  have htake := List.forall₂_take us.length h
  have hdrop := List.forall₂_drop us.length h
  rw [List.take_left] at htake
  rw [List.drop_left] at hdrop
  exact ⟨_, _, htake, hdrop, (List.take_append_drop us.length ts').symm⟩

/-- A course over alike tokens comes to the same answer, but for places. -/
theorem Course.alike (h : Course phase stack ts x answer) (hphase : phase.Alike phase')
    (hstack : stack.Forall₂ Frame.Alike stack') (hts : ts.Forall₂ Token.Alike ts')
    (hx : NextAlike x x') :
    ∃ answer', Course phase' stack' ts' x' answer' ∧ SameAnswer answer answer' := by
  induction h generalizing phase' stack' ts' with
  | done =>
    obtain _ | _ | ⟨ht⟩ := hphase
    cases hstack
    cases hts
    exact ⟨_, .done, .ok (SyntaxTree.beq_iff.mpr ht)⟩
  | fails fails =>
    obtain ⟨e', fails', he⟩ := fails.alike hphase hstack hts hx
    exact ⟨_, .fails fails', .error he⟩
  | @move _ _ _ _ us ts x _ move rest ih =>
    obtain ⟨us', ts', hus, hrest, rfl⟩ := exists_append_of_alike hts
    obtain ⟨next', above', move', hnext, habove⟩ :=
      move.alike hphase hstack hus (nextAlike_first hrest hx).kind_eq
    obtain ⟨answer', rest', hanswer⟩ := ih hnext habove hrest hx
    exact ⟨answer', .move move' rest', hanswer⟩

/-! ## Alike texts -/

theorem nextAlike_of_ahead (h : p.ahead.Forall₂ Token.Alike p'.ahead) :
    NextAlike p.current p'.current := by
  by_cases hend : p.current.kind = .endOfInput
  · rw [ahead_of_end hend] at h
    by_cases hend' : p'.current.kind = .endOfInput
    · exact .inl ⟨hend, hend'⟩
    · rw [ahead_of_ne hend'] at h
      cases h
  · rw [ahead_of_ne hend] at h
    by_cases hend' : p'.current.kind = .endOfInput
    · rw [ahead_of_end hend'] at h
      cases h
    · rw [ahead_of_ne hend'] at h
      cases h with
      | cons h _ => exact .inr h

/-- Parsers with alike tokens ahead read terms in the same way and stop before alike tokens. -/
theorem term_alike (h : p.ahead.Forall₂ Token.Alike p'.ahead) :
    SameAnswer p.term.1 p'.term.1 ∧ NextAlike p.term.2.current p'.term.2.current := by
  obtain ⟨ts, passes, course⟩ := exists_course (p := p) rfl
  rw [passes.ahead_eq] at h
  obtain ⟨ts', w', hts, hw, hahead⟩ := exists_append_of_alike h
  obtain ⟨q', passes', rfl⟩ := exists_passes_of_ahead hahead
  have hnext := nextAlike_of_ahead hw
  obtain ⟨answer', course', hanswer⟩ := course.alike .operand .nil hts hnext
  have hterm : p'.term = (answer', q') := course'.run_eq passes' rfl
  rw [hterm]
  exact ⟨hanswer, hnext⟩

theorem wholeTerm_alike (h : p.ahead.Forall₂ Token.Alike p'.ahead) :
    SameAnswer p.wholeTerm.1 p'.wholeTerm.1 := by
  have hterms := term_alike h
  obtain ⟨answer, q, hterm⟩ : ∃ answer q, p.term = (answer, q) := ⟨_, _, rfl⟩
  obtain ⟨answer', q', hterm'⟩ : ∃ answer q, p'.term = (answer, q) := ⟨_, _, rfl⟩
  rw [wholeTerm_eq hterm, wholeTerm_eq hterm']
  rw [hterm, hterm'] at hterms
  obtain ⟨hanswer, hnext⟩ : SameAnswer answer answer' ∧ NextAlike q.current q'.current := hterms
  cases hanswer with
  | error he => exact .error he
  | ok ht =>
    by_cases hend : q.current.kind = .endOfInput
    · have hend' : q'.current.kind = .endOfInput := hnext.kind_eq ▸ hend
      simpa [Except.bind, atEnd, hend, hend'] using SameAnswer.ok ht
    · have hend' : q'.current.kind ≠ .endOfInput := hnext.kind_eq ▸ hend
      have htrailing : (ParseError.trailing q.current).unplaced =
          (ParseError.trailing q'.current).unplaced :=
        congrArg ParseError.trailing (hnext.alike hend).unplaced_eq
      simpa [Except.bind, atEnd, hend, hend'] using SameAnswer.error htrailing

/-! ## Where the end token stands -/

theorem refusal_of_end {expected : Expected} (hx : x.kind = .endOfInput) :
    refusal expected x = .endOfInput expected := by
  simp only [refusal, hx]

/-- A failure at the end does not depend on where the end token stands. -/
theorem Fails.at_end (h : Fails phase stack us x e) (hx : x.kind = .endOfInput)
    (hx' : x'.kind = .endOfInput) : Fails phase stack us x' e := by
  have hrefusal (expected : Expected) : refusal expected x = refusal expected x' := by
    rw [refusal_of_end hx, refusal_of_end hx']
  have hkind : x.kind = x'.kind := hx.trans hx'.symm
  cases h with
  | term hstart => exact hrefusal .term ▸ .term (hkind ▸ hstart)
  | recName ho hne => exact hrefusal .recName ▸ .recName ho (hkind ▸ hne)
  | recDot ho ha hne => exact hrefusal .recDot ▸ .recDot ho ha (hkind ▸ hne)
  | dot hdot =>
    rw [hx] at hdot
    cases hdot
  | resName ho hne => exact hrefusal .resName ▸ .resName ho (hkind ▸ hne)
  | relName ho hne => exact hrefusal .relName ▸ .relName ho (hkind ▸ hne)
  | bracketClose ho ha hne => exact hrefusal .bracketClose ▸ .bracketClose ho ha (hkind ▸ hne)
  | parenClose hne => exact hrefusal .parenClose ▸ .parenClose (hkind ▸ hne)

theorem Course.at_end (h : Course phase stack ts x answer) (hx : x.kind = .endOfInput)
    (hx' : x'.kind = .endOfInput) : Course phase stack ts x' answer := by
  induction h with
  | done => exact .done
  | fails fails => exact .fails (fails.at_end hx hx')
  | @move _ _ _ _ _ ts _ _ move _ ih =>
    refine .move ?_ (ih hx)
    cases ts with
    | nil => exact move.before (by simp [hx', Grammar.isOperator])
    | cons => exact move

theorem current_eq_or_end (h : p.ahead = p'.ahead) : p.current = p'.current ∨
    p.current.kind = .endOfInput ∧ p'.current.kind = .endOfInput := by
  have hhead := congrArg List.head? h
  rw [head?_ahead, head?_ahead] at hhead
  split at hhead <;> split at hhead
  · next hend hend' => exact .inr ⟨hend, hend'⟩
  · cases hhead
  · cases hhead
  · exact .inl (Option.some.inj hhead)

/-- Parsers with the same tokens ahead read the same term, and the same whole term. -/
theorem term_eq_of_ahead (h : p.ahead = p'.ahead) :
    p.term.1 = p'.term.1 ∧ p.wholeTerm.1 = p'.wholeTerm.1 := by
  obtain ⟨answer, q, hterm⟩ : ∃ answer q, p.term = (answer, q) := ⟨_, _, rfl⟩
  obtain ⟨ts, passes, course⟩ := exists_course hterm
  rw [passes.ahead_eq] at h
  obtain ⟨q', passes', hahead⟩ := exists_passes_of_ahead h.symm
  have hnext := current_eq_or_end hahead.symm
  have hterm' : p'.term = (answer, q') := by
    obtain hcurrent | ⟨hend, hend'⟩ := hnext
    · exact course.run_eq passes' hcurrent.symm
    · exact (course.at_end hend hend').run_eq passes' rfl
  rw [wholeTerm_eq hterm, wholeTerm_eq hterm', hterm, hterm']
  refine ⟨rfl, ?_⟩
  obtain hcurrent | ⟨hend, hend'⟩ := hnext
  · rw [atEnd, atEnd, hcurrent]
  · simp only [atEnd, hend, hend', beq_self_eq_true, if_true]

end Parser

end Guardedness
