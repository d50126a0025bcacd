import Guardedness.Proofs.Parser.Reading
import Guardedness.Proofs.Parser.Writing

/-!
# Processes and their texts

The text of a process has parentheses around every choice and composition, and around nothing else.
So two processes may have the same text. That of `(a.x)\b` is also that of `a.(x\b)`, and it is the
second one that is read from it.

**Plain processes** (`Term.Plain`) are read (`Parser.readsPlainly_of_plain`): an operand that takes
operators leaves the parser where it asks for them, whatever follows.

**Others are not** (`Grammar.Writes.plain`). What is read from the text is written as the tokens
`Term.plainTerminals`. If the process itself is written like this, then each of its operands is as
well: the operator behind an operand is found at the same place, since no parentheses count there,
and the parentheses before the operand are those that are not closed again within it.
-/

namespace Guardedness

universe u v

namespace Term

variable {α : Type u} {β : Type v}

/-- Every operator is applied to a term that takes it without parentheses: to none that is `nil`, a
recursion, or an action whose operand is not closed. -/
def Plain : Term α → Prop
  | nil | var _ => True
  | act _ p | fix _ p => p.Plain
  | par p q | sum p q => p.takesOperators = true ∧ p.Plain ∧ q.Plain
  | res p _ | rel p _ => p.takesOperators = true ∧ p.Plain

instance decidablePlain : (t : Term α) → Decidable t.Plain
  | nil | var _ => isTrue trivial
  | act _ p | fix _ p => decidablePlain p
  | par p q | sum p q =>
    haveI := decidablePlain p
    haveI := decidablePlain q
    inferInstanceAs (Decidable (p.takesOperators = true ∧ p.Plain ∧ q.Plain))
  | res p _ | rel p _ =>
    haveI := decidablePlain p
    inferInstanceAs (Decidable (p.takesOperators = true ∧ p.Plain))

/-- What a term is written as with parentheses around its choices and compositions only. -/
def plainTerminals : Term α → List (Terminal α)
  | nil => [.mark (.keyword .nilWord)]
  | var x => [.name x]
  | act a p => .name a :: .mark .dot :: p.plainTerminals
  | fix x p => .mark (.keyword .recWord) :: .name x :: .mark .dot :: p.plainTerminals
  | par p q => .mark .parenOpen :: p.plainTerminals ++
      .mark .pipe :: (q.plainTerminals ++ [.mark .parenClose])
  | sum p q => .mark .parenOpen :: p.plainTerminals ++
      .mark .plus :: (q.plainTerminals ++ [.mark .parenClose])
  | res p a => p.plainTerminals ++ [.mark .backslash, .name a]
  | rel p f => p.plainTerminals ++ [.mark .bracketOpen, .name f, .mark .bracketClose]

theorem isClosed_map (f : α → β) (t : Term α) : (t.map f).isClosed = t.isClosed := by
  induction t with
  | fix x p ih => simpa [isClosed] using ih
  | _ => simp [isClosed]

theorem takesOperators_map (f : α → β) (t : Term α) :
    (t.map f).takesOperators = t.takesOperators := by
  cases t <;> simp [takesOperators, isClosed_map]

theorem plain_map (f : α → β) (t : Term α) : (t.map f).Plain ↔ t.Plain := by
  induction t with
  | nil | var x => simp [Plain]
  | act a p ih | fix x p ih => simpa [Plain] using ih
  | par p q ihp ihq | sum p q ihp ihq => simp [Plain, takesOperators_map, ihp, ihq]
  | res p a ih | rel p g ih => simp [Plain, takesOperators_map, ih]

end Term

namespace Parser

/-! ## Plain processes are read -/

/-- Trees may be written as processes are. -/
def plainStyle : Term.Style Ident := ⟨Ident.name, false⟩

/-- A tree is read from its plain text, and operators may come behind it if it takes them. -/
structure ReadsPlainly (t : SyntaxTree) : Prop where
  closes : Closes t (Term.render plainStyle t)
  continues : t.takesOperators = true → Continues t (Term.render plainStyle t)

variable {t : SyntaxTree}

theorem renderOperand_plain (t : SyntaxTree) :
    t.renderOperand plainStyle = Term.render plainStyle t := rfl

theorem Continues.readsPlainly (h : Continues t (Term.render plainStyle t)) : ReadsPlainly t :=
  ⟨h.closes, fun _ => h⟩

/-- A closed tree closes before anything. -/
theorem closesBefore_of_isClosed (ht : t.isClosed = true) (hw : ∀ x ∈ t.names, IsWord x.name) :
    ClosesBefore NoLetter t (Term.render plainStyle t) := by
  induction t with
  | nil =>
    rw [Term.render_nil]
    exact closesBefore_nil fun _ hcs => hcs
  | fix x p ih =>
    rw [Term.render_fix]
    obtain ⟨hx, hp⟩ := List.forall_mem_cons.mp hw
    exact ClosesBefore.fix hx (ih ht hp)
  | _ => cases ht

theorem readsPlainly_of_plain (ht : t.Plain) (hw : ∀ x ∈ t.names, IsWord x.name) :
    ReadsPlainly t := by
  induction t with
  | nil =>
    refine ⟨?_, nofun⟩
    rw [Term.render_nil]
    exact closes_nil
  | var x =>
    refine Continues.readsPlainly ?_
    rw [Term.render_var]
    exact continues_var (hw x (List.mem_singleton_self x))
  | act a p ih =>
    obtain ⟨ha, hp⟩ := List.forall_mem_cons.mp hw
    constructor
    · rw [Term.render_act]
      exact closes_act ha (ih ht hp).closes
    · intro hclosed
      rw [Term.render_act]
      exact (closesBefore_of_isClosed hclosed hp).act ha
  | fix x p ih =>
    obtain ⟨hx, hp⟩ := List.forall_mem_cons.mp hw
    refine ⟨?_, nofun⟩
    rw [Term.render_fix]
    exact closes_fix hx (ih ht hp).closes
  | par p q ihp ihq =>
    obtain ⟨htakes, hp, hq⟩ := ht
    obtain ⟨hwp, hwq⟩ := List.forall_mem_append.mp hw
    refine Continues.readsPlainly ?_
    rw [Term.render_par, renderOperand_plain]
    exact continues_operator .par ((ihp hp hwp).continues htakes) (ihq hq hwq).closes
  | sum p q ihp ihq =>
    obtain ⟨htakes, hp, hq⟩ := ht
    obtain ⟨hwp, hwq⟩ := List.forall_mem_append.mp hw
    refine Continues.readsPlainly ?_
    rw [Term.render_sum, renderOperand_plain]
    exact continues_operator .sum ((ihp hp hwp).continues htakes) (ihq hq hwq).closes
  | res p a ih =>
    obtain ⟨htakes, hp⟩ := ht
    obtain ⟨hwp, ha⟩ := List.forall_mem_append.mp hw
    refine Continues.readsPlainly ?_
    rw [Term.render_res, renderOperand_plain]
    exact continues_res (ha a (List.mem_singleton_self a)) ((ih hp hwp).continues htakes)
  | rel p f ih =>
    obtain ⟨htakes, hp⟩ := ht
    obtain ⟨hwp, hf⟩ := List.forall_mem_append.mp hw
    refine Continues.readsPlainly ?_
    rw [Term.render_rel, renderOperand_plain]
    exact continues_rel (hf f (List.mem_singleton_self f)) ((ih hp hwp).continues htakes)

end Parser

/-! ## The tokens of a text -/

def Terminal.map {α : Type u} {β : Type v} (f : α → β) : Terminal α → Terminal β
  | name x => .name (f x)
  | mark k => .mark k

@[simp] theorem Terminal.map_name {α : Type u} {β : Type v} (f : α → β) (x : α) :
    (name x).map f = name (f x) := rfl

@[simp] theorem Terminal.map_mark {α : Type u} {β : Type v} (f : α → β) (k : Token.Kind) :
    (mark k).map f = mark k := rfl

namespace Parser

variable {p : Parser} {c : Char} {cs cs' : List Char} {w w' : List (Terminal String)} {x : String}
  {k : Token.Kind}

/-- The tokens ahead, without their places. -/
def terminals (p : Parser) : List (Terminal String) :=
  p.ahead.map fun t => t.terminal.map Ident.name

/-- The characters have these tokens, whatever follows that is no letter. -/
def Spells (cs : List Char) (w : List (Terminal String)) : Prop :=
  ∀ (p : Parser) (rest : List Char), p.Sees (cs ++ rest) → NoLetter rest →
    ∃ q : Parser, q.Sees rest ∧ p.terminals = w ++ q.terminals

theorem terminals_of_identifier (h : p.current.kind = .identifier) :
    p.terminals = .name p.current.literal :: p.advance.terminals := by
  rw [terminals, ahead_of_ne (by simp [h]), List.map_cons, Token.terminal_of_identifier h]
  rfl

theorem terminals_of_kind (h : p.current.kind = k) (hk : k ≠ .identifier) (hend : k ≠ .endOfInput) :
    p.terminals = .mark k :: p.advance.terminals := by
  rw [terminals, ahead_of_ne (h ▸ hend), List.map_cons, Token.terminal_of_kind h hk]
  rfl

theorem Spells.nil : Spells [] [] := fun p _ hp _ => ⟨p, hp, rfl⟩

theorem Spells.blank (h : Spells cs w) : Spells (' ' :: cs) w :=
  fun p rest hp hrest => h p rest (hp.blank rfl) hrest

theorem Spells.symbol (hk : Token.Kind.ofSymbol? c = some k) (h : Spells cs w) :
    Spells (c :: cs) (.mark k :: w) := by
  intro p rest hp hrest
  obtain ⟨hkind, hp⟩ := Sees.symbol hp hk
  obtain ⟨q, hq, hw⟩ := h _ rest hp hrest
  obtain ⟨hword, -, hend⟩ := kind_of_symbol hk
  refine ⟨q, hq, ?_⟩
  rw [terminals_of_kind hkind (fun hid => by simp [hid, Token.Kind.isWord] at hword) hend, hw]
  rfl

theorem Spells.append (h : Spells cs w) (h' : Spells cs' w') (hcs' : NoLetter cs') :
    Spells (cs ++ cs') (w ++ w') := by
  intro p rest hp hrest
  rw [List.append_assoc] at hp
  obtain ⟨q, hq, hw⟩ := h p _ hp (noLetter_append hcs' hrest)
  obtain ⟨q', hq', hw'⟩ := h' q rest hq hrest
  exact ⟨q', hq', by rw [hw, hw', List.append_assoc]⟩

theorem Spells.word (hx : IsWord x) (hcs : NoLetter cs) (h : Spells cs w) :
    Spells (x.toList ++ cs) (.name x :: w) := by
  intro p rest hp hrest
  rw [List.append_assoc] at hp
  obtain ⟨hkind, hname, hp⟩ := hp.word hx (noLetter_append hcs hrest)
  obtain ⟨q, hq, hw⟩ := h _ rest hp hrest
  exact ⟨q, hq, by rw [terminals_of_identifier hkind, hname, hw, List.cons_append]⟩

theorem Spells.keyword (r : Keyword) (hcs : NoLetter cs) (h : Spells cs w) :
    Spells (r.text.toList ++ cs) (.mark (.keyword r) :: w) := by
  have hne : r.text.toList ≠ [] := by cases r <;> decide
  have hletters : ∀ c ∈ r.text.toList, c.isAlpha = true := by
    cases r <;> exact List.all_eq_true.mp rfl
  intro p rest hp hrest
  rw [List.append_assoc] at hp
  obtain ⟨hkind, -, hp⟩ := hp.letters hne hletters (noLetter_append hcs hrest)
  rw [String.ofList_toList, Token.Kind.ofWord_eq_keyword.mpr rfl] at hkind
  obtain ⟨q, hq, hw⟩ := h _ rest hp hrest
  exact ⟨q, hq, by rw [terminals_of_kind hkind nofun nofun, hw, List.cons_append]⟩

/-- The text of a process has the tokens that it is plainly written as. -/
theorem spells_render {p : Proc} (hp : ∀ x ∈ Term.names p, IsWord x) :
    Spells p.render.toList p.plainTerminals := by
  unfold Proc.render
  induction p with
  | nil =>
    rw [Term.render_nil]
    exact Spells.keyword .nilWord noLetter_nil .nil
  | var x =>
    rw [Term.render_var]
    have h := Spells.word (hp x (List.mem_singleton_self x)) noLetter_nil .nil
    rwa [List.append_nil] at h
  | act a p ih =>
    obtain ⟨ha, hp⟩ := List.forall_mem_cons.mp hp
    rw [Term.render_act]
    have h := Spells.word ha (noLetter_cons rfl) (.symbol (c := '.') rfl (ih hp))
    simpa [Proc.style, Term.plainTerminals] using h
  | fix x p ih =>
    obtain ⟨hx, hp⟩ := List.forall_mem_cons.mp hp
    rw [Term.render_fix]
    have h := Spells.word hx (noLetter_cons rfl) (.symbol (c := '.') rfl (ih hp).blank)
    have h := Spells.keyword .recWord (noLetter_cons rfl) h.blank
    simpa [Proc.style, Term.plainTerminals, Keyword.text] using h
  | par p q ihp ihq =>
    obtain ⟨hp, hq⟩ := List.forall_mem_append.mp hp
    rw [Term.render_par]
    have h := (ihq hq).append (.symbol (c := ')') rfl .nil) (noLetter_cons rfl)
    have h := (ihp hp).append (.symbol (c := '|') rfl h) (noLetter_cons rfl)
    simpa [Term.renderOperand, Proc.style, Term.plainTerminals] using Spells.symbol (c := '(') rfl h
  | sum p q ihp ihq =>
    obtain ⟨hp, hq⟩ := List.forall_mem_append.mp hp
    rw [Term.render_sum]
    have h := (ihq hq).append (.symbol (c := ')') rfl .nil) (noLetter_cons rfl)
    have h := (ihp hp).append (Spells.symbol (c := '+') rfl h.blank).blank (noLetter_cons rfl)
    simpa [Term.renderOperand, Proc.style, Term.plainTerminals] using Spells.symbol (c := '(') rfl h
  | res p a ih =>
    obtain ⟨hp, ha⟩ := List.forall_mem_append.mp hp
    rw [Term.render_res]
    have h := Spells.word (ha a (List.mem_singleton_self a)) noLetter_nil .nil
    have h := (ih hp).append (.symbol (c := '\\') rfl h) (noLetter_cons rfl)
    simpa [Term.renderOperand, Proc.style, Term.plainTerminals] using h
  | rel p f ih =>
    obtain ⟨hp, hf⟩ := List.forall_mem_append.mp hp
    rw [Term.render_rel]
    have h := Spells.word (hf f (List.mem_singleton_self f)) (noLetter_cons rfl)
      (.symbol (c := ']') rfl .nil)
    have h := (ih hp).append (.symbol (c := '[') rfl h) (noLetter_cons rfl)
    simpa [Term.renderOperand, Proc.style, Term.plainTerminals] using h

end Parser

/-! ## Only plain processes are written plainly -/

/-- How much deeper in parentheses the next terminal is. -/
def Terminal.rise {α : Type u} : Terminal α → Int
  | mark .parenOpen => 1
  | mark .parenClose => -1
  | _ => 0

namespace Grammar

variable {α : Type u} {β : Type v} {t p : Term α} {w w' front front' back back' : List (Terminal α)}
  {x x' : Terminal α} {n k : Nat}

theorem map_parens (f : α → β) :
    (parens n w).map (Terminal.map f) = parens n (w.map (Terminal.map f)) := by
  simp [parens, opens, closes]

theorem Writes.map (f : α → β) (h : Writes t w) : Writes (t.map f) (w.map (Terminal.map f)) := by
  induction h with
  | nil =>
    rw [Term.map_nil]
    exact .nil
  | var x =>
    rw [Term.map_var]
    exact .var (f x)
  | act a n _ ih => simpa [map_parens] using Writes.act (f a) n ih
  | fix x n _ ih => simpa [map_parens] using Writes.fix (f x) n ih
  | par m n hm _ _ ih ih' =>
    simpa [map_parens] using Writes.par m n (by rwa [Term.takesOperators_map]) ih ih'
  | sum m n hm _ _ ih ih' =>
    simpa [map_parens] using Writes.sum m n (by rwa [Term.takesOperators_map]) ih ih'
  | res a m hm _ ih =>
    simpa [map_parens] using Writes.res (f a) m (by rwa [Term.takesOperators_map]) ih
  | rel g m hm _ ih =>
    simpa [map_parens] using Writes.rel (f g) m (by rwa [Term.takesOperators_map]) ih

theorem Written.map (f : α → β) (h : Written t w) :
    Written (t.map f) (w.map (Terminal.map f)) := by
  obtain ⟨n, w, rfl, h⟩ := h
  exact ⟨n, _, map_parens f, h.map f⟩

/-- How many more parentheses are opened than closed. -/
def depth (w : List (Terminal α)) : Int := (w.map Terminal.rise).sum

@[simp] theorem depth_nil : depth ([] : List (Terminal α)) = 0 := rfl

@[simp] theorem depth_cons : depth (x :: w) = x.rise + depth w := by simp [depth]

@[simp] theorem depth_append : depth (w ++ w') = depth w + depth w' := by simp [depth]

@[simp] theorem depth_opens : depth (opens n : List (Terminal α)) = n := by
  simp [depth, opens, Terminal.rise]

theorem Nested.depth_eq (h : Nested w) : depth w = 0 := by
  induction h with
  | nil => rfl
  | @cons x w hx _ ih =>
    have hrise : x.rise = 0 := by
      unfold Terminal.rise
      split <;> first | rfl | cases hx
    rw [depth_cons, hrise, ih, zero_add]
  | paren _ _ ih ih' => simp [ih, ih', Terminal.rise]

/-- Terminals that are no parentheses stand at the same place if they have the same before them. -/
theorem split_bare (hx : x.isParen = false) (hx' : x'.isParen = false)
    (hfront : bare front = bare front') (h : front ++ x :: back = front' ++ x' :: back') :
    front = front' ∧ back = back' := by
  induction front generalizing front' with
  | nil =>
    cases front' with
    | nil => exact ⟨rfl, (List.cons.inj h).2⟩
    | cons y front' =>
      obtain ⟨rfl, -⟩ := List.cons.inj h
      simp [hx] at hfront
  | cons y front ih =>
    cases front' with
    | nil =>
      obtain ⟨rfl, -⟩ := List.cons.inj h
      simp [hx'] at hfront
    | cons y' front' =>
      obtain ⟨rfl, htail⟩ := List.cons.inj h
      have hbare : bare front = bare front' := by
        cases hy : y.isParen <;> simpa [hy] using hfront
      obtain ⟨rfl, rfl⟩ := ih hbare htail
      exact ⟨rfl, rfl⟩

/-- If a term is written in `k` pairs of parentheses on the one hand and in `n` on the other, and an
operand with its own parentheses comes first in both, then the parentheses are the same. -/
theorem operand_of_parens {own own' : List (Terminal α)} (hown : Nested own) (hown' : Nested own')
    (hbare : bare own' = bare own) (hx : x.isParen = false)
    (h : opens k ++ own' ++ x :: back' = parens n (own ++ x :: back)) :
    n = k ∧ own' = own ∧ back' = back ++ closes k := by
  have h : opens k ++ own' ++ x :: back' = opens n ++ own ++ x :: (back ++ closes n) := by
    simpa [parens] using h
  obtain ⟨hfront, hback⟩ := split_bare hx hx (by simp [hbare]) h
  -- The operands close all that they open, so the parentheses before them are equally many.
  obtain rfl : n = k := by
    have hdepth := congrArg depth hfront
    simpa [hown.depth_eq, hown'.depth_eq] using hdepth.symm
  exact ⟨rfl, List.append_cancel_left hfront, hback⟩

theorem nested_plain (t : Term α) : Nested t.plainTerminals := by
  induction t with
  | nil | var x => exact .cons rfl .nil
  | act a p ih => exact .cons rfl (.cons rfl ih)
  | fix x p ih => exact .cons rfl (.cons rfl (.cons rfl ih))
  | par p q ihp ihq | sum p q ihp ihq =>
    simpa [Term.plainTerminals] using Nested.paren (ihp.append (.cons rfl ihq)) .nil
  | res p a ih => exact ih.append (.cons rfl (.cons rfl .nil))
  | rel p f ih => exact ih.append (.cons rfl (.cons rfl (.cons rfl .nil)))

theorem bare_plain (t : Term α) : bare t.plainTerminals = t.terminals := by
  induction t with
  | nil | var x => rfl
  | act a p ih | fix x p ih => simp [Term.plainTerminals, Term.terminals, Terminal.isParen, ih]
  | par p q ihp ihq | sum p q ihp ihq =>
    simp [Term.plainTerminals, Term.terminals, Terminal.isParen, ihp, ihq]
  | res p a ih | rel p f ih => simp [Term.plainTerminals, Term.terminals, Terminal.isParen, ih]

theorem Writes.bare_plain (h : Writes t w) : bare t.plainTerminals = bare (parens n w) := by
  rw [Grammar.bare_plain, bare_parens, h.bare_eq]

theorem takesOperators_of_plain (hplain : t.plainTerminals = parens n w)
    (hn : n = 0 → t.takesOperators = true) : t.takesOperators = true := by
  cases n with
  | zero => exact hn rfl
  | succ n =>
    rw [parens_succ] at hplain
    cases t with
    | nil | act a p | fix x p => simp [Term.plainTerminals] at hplain
    | _ => rfl

/-- A term that is written plainly is plain. -/
theorem Writes.plain (h : Writes t w) (hplain : t.plainTerminals = parens n w) : t.Plain := by
  induction h generalizing n with
  | nil | var x => trivial
  | act a m h ih | fix x m h ih =>
    obtain ⟨-, -, hback⟩ := operand_of_parens (k := 0) .nil .nil rfl rfl hplain
    exact ih (by simpa [closes] using hback)
  | par l m hl h h' ih ih' | sum l m hl h h' ih ih' =>
    -- One parenthesis belongs to the whole, and the operand has the others.
    obtain ⟨-, hleft, hback⟩ :=
      operand_of_parens (k := 1) (h.nested.parens l) (nested_plain _) h.bare_plain rfl hplain
    exact ⟨takesOperators_of_plain hleft hl, ih hleft, ih' (by simpa [closes] using hback)⟩
  | res a m hm h ih | rel f m hm h ih =>
    obtain ⟨-, hleft, -⟩ :=
      operand_of_parens (k := 0) (h.nested.parens m) (nested_plain _) h.bare_plain rfl hplain
    exact ⟨takesOperators_of_plain hleft hm, ih hleft⟩

end Grammar

namespace Proc

variable {p : Proc}

/-- What is read from the text of a process has its tokens. -/
theorem terminals_ofText_render (hp : ∀ x ∈ Term.names p, IsWord x) :
    (Parser.ofText p.render).terminals = p.plainTerminals := by
  have hsees : (Parser.ofText p.render).Sees (p.render.toList ++ []) := by
    rw [List.append_nil]
    exact Parser.sees_ofText _
  obtain ⟨q, hq, hw⟩ := Parser.spells_render hp _ [] hsees noLetter_nil
  rw [hw, Parser.terminals, Parser.ahead_of_end hq.kind_nil, List.map_nil, List.append_nil]

/-- **A process whose names are words reads back from its text just when no operator in it is
applied to `nil`, to a recursion, or to an action whose operand is neither `nil` nor a recursion
that ends with `nil`.** -/
theorem ofText_render_iff (hp : ∀ x ∈ Term.names p, IsWord x) :
    (∃ t, SyntaxTree.ofText p.render = .ok t ∧ t.proc = p) ↔ Term.Plain p := by
  constructor
  · rintro ⟨t, hread, hproc⟩
    obtain ⟨d, hyield, rfl⟩ := SyntaxTree.exists_derivation_of_ofText hread
    have htokens : d.yield.map (Terminal.map Ident.name) = p.plainTerminals := by
      rw [hyield, Lexer.dropLast_tokens, List.map_map]
      exact terminals_ofText_render hp
    obtain ⟨n, w, hplain, hw⟩ := d.written.map Ident.name
    rw [htokens] at hplain
    have hw : Grammar.Writes p w := by rwa [← hproc]
    exact hw.plain hplain
  · intro hplain
    have hrender : Term.render Parser.plainStyle (Term.map Ident.ofName p) = p.render :=
      Term.render_map _ _ _
    have hwords : ∀ x ∈ (Term.map Ident.ofName p).names, IsWord x.name := by
      intro x hx
      rw [Term.names_map] at hx
      obtain ⟨y, hy, rfl⟩ := List.mem_map.mp hx
      exact hp y hy
    have hread := Parser.readsPlainly_of_plain ((Term.plain_map _ _).mpr hplain) hwords
    obtain ⟨t, ht, hproc⟩ := hread.closes.exists_ofText
    rw [hrender] at ht
    exact ⟨t, ht, hproc.trans (SyntaxTree.proc_map_ofName p)⟩

/-- In `a.rec y. nil\b` the restriction is read as that of the whole, as it is written, and in
`a.x\b` it is not. -/
theorem ofText_render_iff_of_closed :
    (∃ t, SyntaxTree.ofText (render (.res (.act "a" (.fix "y" .nil)) "b")) = .ok t ∧
      t.proc = .res (.act "a" (.fix "y" .nil)) "b") ∧
    ¬∃ t, SyntaxTree.ofText (render (.res (.act "a" (.var "x")) "b")) = .ok t ∧
      t.proc = .res (.act "a" (.var "x")) "b" := by
  constructor
  · exact (ofText_render_iff (by decide)).mpr (by decide)
  · intro h
    exact absurd ((ofText_render_iff (by decide)).mp h) (by decide)

end Proc

end Guardedness
