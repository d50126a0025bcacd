import Guardedness.Term
import Guardedness.Token

/-!
# The grammar of terms

    sentence := 'nil'
              | 'rec' name '.' sentence
              | name suffixes
              | name '.' sentence suffixes
              | '(' sentence ')' suffixes

    suffix := '+' sentence | '|' sentence
            | '\' name | '[' name ']'

The grammar is ambiguous: in `a + b + c` the second choice may belong to `b` or to the whole. A
reader that goes from left to right and never goes back must give every suffix to the innermost term
that takes one, and the question is whether it refuses a sentence because of that.

**Sound** (`sentence_of_reads`). A reader (`Reads`) keeps a stack of its openings, and passes on
from a term only when nothing can follow it. What it reads is a sentence: what the openings still
ask for is said by `Rest`.

**Complete** (`Sentence.reads`). A reader in front of a suffix may have more terms open than the
derivation has at that place. That does no harm (`Reads.mono`): an inner term that takes no suffix
is closed on the way to one that does, and an inner term that takes it comes back to the same place.
-/

namespace Guardedness

universe u

namespace Grammar

open Token (Kind)

/-- The operators between two terms. -/
inductive Infix where
  | sum
  | par
deriving DecidableEq

namespace Infix

def mark : Infix → Kind
  | sum => .plus
  | par => .pipe

def tree {ν : Type u} : Infix → Term ν → Term ν → Term ν
  | sum => .sum
  | par => .par

theorem map_tree {ν μ : Type u} (f : ν → μ) (op : Infix) (s t : Term ν) :
    (op.tree s t).map f = op.tree (s.map f) (t.map f) := by
  cases op with
  | sum => exact Term.map_sum f s t
  | par => exact Term.map_par f s t

end Infix

/-! ## Derivations -/

mutual

/-- The sentences. -/
inductive Sentence : List Kind → Prop
  | nil : Sentence [.keyword .nilWord]
  | fix {d : List Kind} : Sentence d → Sentence (.keyword .recWord :: .identifier :: .dot :: d)
  | var {v : List Kind} : Suffixes v → Sentence (.identifier :: v)
  | act {d v : List Kind} : Sentence d → Suffixes v → Sentence (.identifier :: .dot :: (d ++ v))
  | paren {d v : List Kind} : Sentence d → Suffixes v →
    Sentence (.parenOpen :: (d ++ .parenClose :: v))

/-- What makes a greater term of a term. -/
inductive Suffix : List Kind → Prop
  | sum {d : List Kind} : Sentence d → Suffix (.plus :: d)
  | par {d : List Kind} : Sentence d → Suffix (.pipe :: d)
  | res : Suffix [.backslash, .identifier]
  | rel : Suffix [.bracketOpen, .identifier, .bracketClose]

inductive Suffixes : List Kind → Prop
  | nil : Suffixes []
  | cons {u v : List Kind} : Suffix u → Suffixes v → Suffixes (u ++ v)

end

/-! ## Greedy reading -/

/-- A construct that is open around the term being read. -/
inductive Opening where
  | paren
  | binder
  | operand

/-- What is read next. -/
inductive Control where
  | operand
  /-- What follows a term; a dot may follow only a single name. -/
  | operators (dotted : Bool)
  | close

/-- A token that can follow a term. -/
def isOperator : Kind → Bool
  | .dot | .plus | .pipe | .backslash | .bracketOpen => true
  | _ => false

/-- A reader reads all tokens, without ever going back. -/
inductive Reads : Control → List Opening → List Kind → Prop
  | nil {st w} : Reads .close st w → Reads .operand st (.keyword .nilWord :: w)
  | fix {st w} : Reads .operand (.binder :: st) w →
    Reads .operand st (.keyword .recWord :: .identifier :: .dot :: w)
  | var {st w} : Reads (.operators true) st w → Reads .operand st (.identifier :: w)
  | paren {st w} : Reads .operand (.paren :: st) w → Reads .operand st (.parenOpen :: w)
  | dot {st w} : Reads .operand (.operand :: st) w → Reads (.operators true) st (.dot :: w)
  | plus {st w dotted} : Reads .operand (.operand :: st) w →
    Reads (.operators dotted) st (.plus :: w)
  | pipe {st w dotted} : Reads .operand (.operand :: st) w →
    Reads (.operators dotted) st (.pipe :: w)
  | res {st w dotted} : Reads (.operators false) st w →
    Reads (.operators dotted) st (.backslash :: .identifier :: w)
  | rel {st w dotted} : Reads (.operators false) st w →
    Reads (.operators dotted) st (.bracketOpen :: .identifier :: .bracketClose :: w)
  | pass {st w dotted} : (∀ k ∈ w.head?, isOperator k = false) → Reads .close st w →
    Reads (.operators dotted) st w
  | closeParen {st w} : Reads (.operators false) st w →
    Reads .close (.paren :: st) (.parenClose :: w)
  | closeBinder {st w} : Reads .close st w → Reads .close (.binder :: st) w
  | closeOperand {st w} : Reads (.operators false) st w → Reads .close (.operand :: st) w
  | done : Reads .close [] []

variable {c c' : Control} {st st' : List Opening} {d u v w : List Kind} {dotted : Bool}

/-! ## The next token settles what a reader does -/

/-- A token of kind `k` comes next, and what follows it is as `P` says. -/
def Expects (k : Kind) (P : List Kind → Prop) (w : List Kind) : Prop := ∃ w', w = k :: w' ∧ P w'

@[simp] theorem expects_cons {j k : Kind} {P : List Kind → Prop} :
    Expects k P (j :: w) ↔ j = k ∧ P w := by
  constructor
  · rintro ⟨_, h, hw⟩
    obtain ⟨rfl, rfl⟩ := List.cons.inj h
    exact ⟨rfl, hw⟩
  · rintro ⟨rfl, hw⟩
    exact ⟨_, rfl, hw⟩

@[simp] theorem reads_nilWord :
    Reads .operand st (.keyword .nilWord :: w) ↔ Reads .close st w := by
  constructor
  · intro h
    cases h with
    | nil h => exact h
  · exact .nil

@[simp] theorem reads_recWord : Reads .operand st (.keyword .recWord :: w) ↔
    Expects .identifier (Expects .dot (Reads .operand (.binder :: st))) w := by
  constructor
  · intro h
    cases h with
    | fix h => exact ⟨_, rfl, _, rfl, h⟩
  · rintro ⟨_, rfl, _, rfl, h⟩
    exact .fix h

@[simp] theorem reads_identifier :
    Reads .operand st (.identifier :: w) ↔ Reads (.operators true) st w := by
  constructor
  · intro h
    cases h with
    | var h => exact h
  · exact .var

@[simp] theorem reads_parenOpen :
    Reads .operand st (.parenOpen :: w) ↔ Reads .operand (.paren :: st) w := by
  constructor
  · intro h
    cases h with
    | paren h => exact h
  · exact .paren

@[simp] theorem reads_dot : Reads (.operators dotted) st (.dot :: w) ↔
    dotted = true ∧ Reads .operand (.operand :: st) w := by
  constructor
  · intro h
    cases h with
    | dot h => exact ⟨rfl, h⟩
    | pass hk => simp [isOperator] at hk
  · rintro ⟨rfl, h⟩
    exact .dot h

@[simp] theorem reads_plus : Reads (.operators dotted) st (.plus :: w) ↔
    Reads .operand (.operand :: st) w := by
  constructor
  · intro h
    cases h with
    | plus h => exact h
    | pass hk => simp [isOperator] at hk
  · exact .plus

@[simp] theorem reads_pipe : Reads (.operators dotted) st (.pipe :: w) ↔
    Reads .operand (.operand :: st) w := by
  constructor
  · intro h
    cases h with
    | pipe h => exact h
    | pass hk => simp [isOperator] at hk
  · exact .pipe

@[simp] theorem reads_backslash : Reads (.operators dotted) st (.backslash :: w) ↔
    Expects .identifier (Reads (.operators false) st) w := by
  constructor
  · intro h
    cases h with
    | res h => exact ⟨_, rfl, h⟩
    | pass hk => simp [isOperator] at hk
  · rintro ⟨_, rfl, h⟩
    exact .res h

@[simp] theorem reads_bracketOpen : Reads (.operators dotted) st (.bracketOpen :: w) ↔
    Expects .identifier (Expects .bracketClose (Reads (.operators false) st)) w := by
  constructor
  · intro h
    cases h with
    | rel h => exact ⟨_, rfl, _, rfl, h⟩
    | pass hk => simp [isOperator] at hk
  · rintro ⟨_, rfl, _, rfl, h⟩
    exact .rel h

theorem reads_pass (hk : ∀ k ∈ w.head?, isOperator k = false) :
    Reads (.operators dotted) st w ↔ Reads .close st w := by
  constructor
  · intro h
    cases h with
    | pass _ h => exact h
    | _ => simp [isOperator] at hk
  · exact .pass hk

@[simp] theorem reads_closeParen : Reads .close (.paren :: st) w ↔
    Expects .parenClose (Reads (.operators false) st) w := by
  constructor
  · intro h
    cases h with
    | closeParen h => exact ⟨_, rfl, h⟩
  · rintro ⟨_, rfl, h⟩
    exact .closeParen h

@[simp] theorem reads_closeBinder : Reads .close (.binder :: st) w ↔ Reads .close st w := by
  constructor
  · intro h
    cases h with
    | closeBinder h => exact h
  · exact .closeBinder

@[simp] theorem reads_closeOperand :
    Reads .close (.operand :: st) w ↔ Reads (.operators false) st w := by
  constructor
  · intro h
    cases h with
    | closeOperand h => exact h
  · exact .closeOperand

@[simp] theorem reads_done : Reads .close [] w ↔ w = [] := by
  constructor
  · intro h
    cases h with
    | done => rfl
  · rintro rfl
    exact .done

/-! ## What is read is a sentence -/

/-- What a derivation has after a term that stands within openings. -/
def Rest : List Opening → List Kind → Prop
  | [], w => w = []
  | .paren :: st, w => ∃ v u, w = .parenClose :: (v ++ u) ∧ Suffixes v ∧ Rest st u
  | .binder :: st, w => Rest st w
  | .operand :: st, w => ∃ v u, w = v ++ u ∧ Suffixes v ∧ Rest st u

/-- What a derivation has from a place on. -/
def Derives : Control → List Opening → List Kind → Prop
  | .operand, st, w => ∃ d u, w = d ++ u ∧ Sentence d ∧ Rest st u
  | .operators dotted, st, w =>
    (∃ v u, w = v ++ u ∧ Suffixes v ∧ Rest st u) ∨
      dotted = true ∧ ∃ d v u, w = .dot :: (d ++ (v ++ u)) ∧ Sentence d ∧ Suffixes v ∧ Rest st u
  | .close, st, w => Rest st w

/-- A suffix goes before those that follow. -/
theorem Derives.suffix (hu : Suffix u) (h : Derives (.operators false) st w) :
    Derives (.operators dotted) st (u ++ w) := by
  obtain ⟨v, r, rfl, hv, hr⟩ | ⟨h, -⟩ := h
  · exact .inl ⟨u ++ v, r, (List.append_assoc ..).symm, .cons hu hv, hr⟩
  · cases h

theorem Reads.derives (h : Reads c st w) : Derives c st w := by
  induction h with
  | nil _ ih => exact ⟨_, _, rfl, .nil, ih⟩
  | fix _ ih =>
    obtain ⟨d, u, rfl, hd, hu⟩ := ih
    exact ⟨_, u, rfl, .fix hd, hu⟩
  | var _ ih =>
    obtain ⟨v, u, rfl, hv, hu⟩ | ⟨-, d, v, u, rfl, hd, hv, hu⟩ := ih
    · exact ⟨_, u, rfl, .var hv, hu⟩
    · exact ⟨.identifier :: .dot :: (d ++ v), u, by simp, .act hd hv, hu⟩
  | paren _ ih =>
    obtain ⟨d, _, rfl, hd, v, u, rfl, hv, hu⟩ := ih
    exact ⟨.parenOpen :: (d ++ .parenClose :: v), u, by simp, .paren hd hv, hu⟩
  | dot _ ih =>
    obtain ⟨d, _, rfl, hd, v, u, rfl, hv, hu⟩ := ih
    exact .inr ⟨rfl, d, v, u, rfl, hd, hv, hu⟩
  | plus _ ih =>
    obtain ⟨d, w, rfl, hd, hw⟩ := ih
    exact Derives.suffix (.sum hd) (.inl hw)
  | pipe _ ih =>
    obtain ⟨d, w, rfl, hd, hw⟩ := ih
    exact Derives.suffix (.par hd) (.inl hw)
  | res _ ih => exact Derives.suffix .res ih
  | rel _ ih => exact Derives.suffix .rel ih
  | pass _ _ ih => exact .inl ⟨[], _, rfl, .nil, ih⟩
  | closeParen _ ih =>
    obtain ⟨v, u, rfl, hv, hu⟩ | ⟨h, -⟩ := ih
    · exact ⟨v, u, rfl, hv, hu⟩
    · cases h
  | closeBinder _ ih => exact ih
  | closeOperand _ ih =>
    obtain ⟨v, u, rfl, hv, hu⟩ | ⟨h, -⟩ := ih
    · exact ⟨v, u, rfl, hv, hu⟩
    · cases h
  | done => rfl

theorem sentence_of_reads (h : Reads .operand [] w) : Sentence w := by
  obtain ⟨d, u, rfl, hd, rfl⟩ := h.derives
  rwa [List.append_nil]

/-! ## A sentence is read -/

/-- The openings of the second list are those of the first and others, none of which is a
parenthesis. -/
inductive Under : List Opening → List Opening → Prop
  | nil : Under [] []
  | cons {o : Opening} {st st' : List Opening} : Under st st' → Under (o :: st) (o :: st')
  | binder {st st' : List Opening} : Under st st' → Under st (.binder :: st')
  | operand {st st' : List Opening} : Under st st' → Under st (.operand :: st')

theorem Under.refl (st : List Opening) : Under st st := by
  induction st with
  | nil => exact .nil
  | cons o st ih => exact .cons ih

theorem Under.of_binder (h : Under (.binder :: st) st') : Under st st' := by
  generalize hs : Opening.binder :: st = outer at h
  induction h with
  | nil => cases hs
  | cons h _ => cases hs; exact .binder h
  | binder _ ih => exact .binder (ih hs)
  | operand _ ih => exact .operand (ih hs)

theorem Under.of_operand (h : Under (.operand :: st) st') : Under st st' := by
  generalize hs : Opening.operand :: st = outer at h
  induction h with
  | nil => cases hs
  | cons h _ => cases hs; exact .operand h
  | binder _ ih => exact .binder (ih hs)
  | operand _ ih => exact .operand (ih hs)

/-- A reader that is about to close a term may as well be asked for what follows it. -/
inductive Control.Le : Control → Control → Prop
  | operand : Le .operand .operand
  | operators {dotted dotted' : Bool} (h : dotted = true → dotted' = true) :
    Le (.operators dotted) (.operators dotted')
  | close : Le .close .close
  | closeOperators {dotted : Bool} : Le .close (.operators dotted)

/-- Nothing follows a term at the end. -/
theorem Reads.done_of_under (hu : Under [] st) : Reads .close st [] := by
  generalize hs : ([] : List Opening) = outer at hu
  induction hu with
  | nil => exact .done
  | cons => cases hs
  | binder _ ih => exact .closeBinder (ih hs)
  | operand _ ih => exact .closeOperand (.pass (by simp) (ih hs))

/-- A closing parenthesis is no operator, so all that is open within the parentheses is closed. -/
theorem Reads.closeParen_of_under (hu : Under (.paren :: st) st')
    (h : ∀ st₁, Under st st₁ → Reads (.operators false) st₁ w) :
    Reads .close st' (.parenClose :: w) := by
  generalize hs : Opening.paren :: st = outer at hu
  induction hu with
  | nil => cases hs
  | cons hu _ => cases hs; exact .closeParen (h _ hu)
  | binder _ ih => exact .closeBinder (ih hs)
  | operand _ ih => exact .closeOperand (.pass (by simp [isOperator]) (ih hs))

theorem Reads.closeOperand_of_under (hu : Under (.operand :: st) st')
    (h : ∀ st₁, Under st st₁ → Reads (.operators false) st₁ w) : Reads .close st' w := by
  generalize hs : Opening.operand :: st = outer at hu
  induction hu with
  | nil => cases hs
  | cons hu _ => cases hs; exact .closeOperand (h _ hu)
  | binder _ ih => exact .closeBinder (ih hs)
  | operand hu _ => subst hs; exact .closeOperand (h _ hu.of_operand)

/-- Terms that are open besides do no harm. -/
theorem Reads.mono (h : Reads c st w) (hu : Under st st') (hc : c.Le c') : Reads c' st' w := by
  induction h generalizing st' c' with
  | nil _ ih => cases hc; exact .nil (ih hu .close)
  | fix _ ih => cases hc; exact .fix (ih hu.cons .operand)
  | var _ ih => cases hc; exact .var (ih hu (.operators id))
  | paren _ ih => cases hc; exact .paren (ih hu.cons .operand)
  | dot _ ih =>
    cases hc with
    | operators hd =>
      rw [hd rfl]
      exact .dot (ih hu.cons .operand)
  | plus _ ih => obtain ⟨-⟩ := hc; exact .plus (ih hu.cons .operand)
  | pipe _ ih => obtain ⟨-⟩ := hc; exact .pipe (ih hu.cons .operand)
  | res _ ih => obtain ⟨-⟩ := hc; exact .res (ih hu (.operators id))
  | rel _ ih => obtain ⟨-⟩ := hc; exact .rel (ih hu (.operators id))
  | pass hk _ ih => obtain ⟨-⟩ := hc; exact .pass hk (ih hu .close)
  | closeParen _ ih =>
    have h := closeParen_of_under hu fun _ hu₁ => ih hu₁ (.operators id)
    cases hc with
    | close => exact h
    -- Asked for operators, the reader passes, since a parenthesis is none.
    | closeOperators => exact .pass (by simp [isOperator]) h
  | closeBinder _ ih => exact ih hu.of_binder hc
  | closeOperand _ ih =>
    cases hc with
    | close => exact closeOperand_of_under hu fun _ hu₁ => ih hu₁ (.operators id)
    | closeOperators => exact ih hu.of_operand (.operators (by simp))
  | done =>
    cases hc with
    | close => exact done_of_under hu
    | closeOperators => exact .pass (by simp) (done_of_under hu)

theorem Reads.operators (h : Reads .close st w) : Reads (.operators dotted) st w :=
  h.mono (.refl st) .closeOperators

mutual

/-- What follows a sentence follows its last operand as well. -/
theorem Sentence.reads {d : List Kind} (hd : Sentence d) :
    ∀ st w, Reads .close st w → Reads .operand st (d ++ w) := by
  intro st w h
  match hd with
  | .nil => exact .nil h
  | .fix hd => exact .fix (hd.reads _ w (.closeBinder h))
  | .var hv => exact .var (hv.reads st w true h)
  | .act hd hv =>
    rw [List.cons_append, List.cons_append, List.append_assoc]
    exact .var (.dot (hd.reads _ _ (.closeOperand (hv.reads st w false h))))
  | .paren hd hv =>
    rw [List.cons_append, List.append_assoc]
    exact .paren (hd.reads _ _ (.closeParen (hv.reads st w false h)))

theorem Suffix.reads {u : List Kind} (hu : Suffix u) : ∀ st w dotted,
    Reads (.operators false) st w → Reads (.operators dotted) st (u ++ w) := by
  intro st w dotted h
  match hu with
  | .sum hd => exact .plus (hd.reads _ w (.closeOperand h))
  | .par hd => exact .pipe (hd.reads _ w (.closeOperand h))
  | .res => exact .res h
  | .rel => exact .rel h

theorem Suffixes.reads {v : List Kind} (hv : Suffixes v) : ∀ st w dotted,
    Reads .close st w → Reads (.operators dotted) st (v ++ w) := by
  intro st w dotted h
  match hv with
  | .nil => exact h.operators
  | .cons hu hv =>
    rw [List.append_assoc]
    exact hu.reads st _ dotted (hv.reads st w false h)

end

/-- **The sentences of the grammar are what a reader reads that never goes back.** -/
theorem reads_iff_sentence : Reads .operand [] w ↔ Sentence w := by
  constructor
  · exact sentence_of_reads
  · intro h
    have := h.reads [] [] .done
    rwa [List.append_nil] at this

/-! ## What readers can read -/

theorem Reads.ne_endOfInput (h : Reads c st w) : ∀ k ∈ w, k ≠ .endOfInput := by
  induction h with
  | pass _ _ ih | closeBinder _ ih | closeOperand _ ih => exact ih
  | done => exact List.forall_mem_nil _
  | _ => simp_all

/-- Whatever is open can be closed. -/
theorem exists_reads_close (st : List Opening) : ∃ w, Reads .close st w := by
  induction st with
  | nil => exact ⟨[], .done⟩
  | cons o st ih =>
    obtain ⟨w, hw⟩ := ih
    cases o with
    | paren => exact ⟨.parenClose :: w, .closeParen hw.operators⟩
    | binder => exact ⟨w, .closeBinder hw⟩
    | operand => exact ⟨w, .closeOperand hw.operators⟩

theorem exists_reads (c : Control) (st : List Opening) : ∃ w, Reads c st w := by
  obtain ⟨w, hw⟩ := exists_reads_close st
  cases c with
  | operand => exact ⟨.keyword .nilWord :: w, .nil hw⟩
  | operators dotted => exact ⟨w, hw.operators⟩
  | close => exact ⟨w, hw⟩

theorem exists_expects {k : Kind} {P : List Kind → Prop} (h : ∃ w, P w) : ∃ w, Expects k P w := by
  obtain ⟨w, hw⟩ := h
  exact ⟨k :: w, w, rfl, hw⟩

end Grammar

end Guardedness
