import Guardedness.Term

/-!
# Terms as text

A choice and a composition stand in parentheses, everything else stands bare. Whether the operand
left of `|` and `+`, or under `\` and `[ ]`, gets parentheses of its own when it is `nil`, an action
or a recursion is left to the *style*: without them, what follows such an operand would be taken
for its own.

**Writing** (`render`) keeps a list of pieces still to be written and appends them to the text so
far. Main statements: the text of each shape of term is put together from the texts of its parts
(`render_par` and so on), and every one of them begins where the text so far ends.
-/

namespace Guardedness

universe u

namespace Term

variable {ν : Type u}

/-- Terms that do not end where their last operand ends, or that take no operator after them:
`nil`, an action and a recursion. -/
def isGreedy : Term ν → Bool
  | nil | act _ _ | fix _ _ => true
  | _ => false

/-- How terms are written. -/
structure Style (ν : Type u) where
  spell : ν → String
  /-- Whether a greedy operand gets parentheses of its own. -/
  guardOperands : Bool

/-- Part of what is still to be written. -/
inductive Piece (ν : Type u) where
  | text (s : String)
  | term (t : Term ν)

namespace Style

/-- The pieces of an operand that something follows. -/
def operand (y : Style ν) (p : Term ν) : List (Piece ν) :=
  if y.guardOperands && p.isGreedy then [.text "(", .term p, .text ")"] else [.term p]

/-- The pieces of a term, by the shape of its root. -/
def pieces (y : Style ν) : Term ν → List (Piece ν)
  | nil => [.text "nil"]
  | var x => [.text (y.spell x)]
  | act a p => [.text (y.spell a), .text ".", .term p]
  | fix x p => [.text "rec ", .text (y.spell x), .text ". ", .term p]
  | par p q => .text "(" :: y.operand p ++ [.text "|", .term q, .text ")"]
  | sum p q => .text "(" :: y.operand p ++ [.text " + ", .term q, .text ")"]
  | res p a => y.operand p ++ [.text "\\", .text (y.spell a)]
  | rel p f => y.operand p ++ [.text "[", .text (y.spell f), .text "]"]

end Style

/-- The steps left for a piece: no shape of root has more than six texts of its own. -/
def Piece.measure : Piece ν → Nat
  | text _ => 1
  | term t => 7 * t.weight

theorem measure_operand (y : Style ν) (p : Term ν) :
    total ((y.operand p).map Piece.measure) ≤ 7 * p.weight + 2 := by
  unfold Style.operand
  split <;> simp [Piece.measure]
  omega

theorem measure_pieces (y : Style ν) (t : Term ν) :
    total ((y.pieces t).map Piece.measure) < 7 * t.weight := by
  cases t with
  | par p q | sum p q | res p a | rel p f =>
    have := measure_operand y p
    simp [Style.pieces, Piece.measure, weight] at this ⊢
    omega
  | _ => simp [Style.pieces, Piece.measure, weight] <;> omega

/-- Write pieces after the text so far. -/
def writeOnto (y : Style ν) : List (Piece ν) → String → String
  | [], acc => acc
  | .text s :: pending, acc => writeOnto y pending (acc ++ s)
  | .term t :: pending, acc => writeOnto y (y.pieces t ++ pending) acc
termination_by pending => total (pending.map Piece.measure)
decreasing_by
  · simp [Piece.measure]
  · have := measure_pieces y t
    simp [Piece.measure]
    omega

def render (y : Style ν) (t : Term ν) : String := writeOnto y [.term t] ""

/-! ## The text of each shape -/

def write (y : Style ν) (ps : List (Piece ν)) : String := writeOnto y ps ""

theorem writeOnto_eq (y : Style ν) (ps : List (Piece ν)) (acc : String) :
    writeOnto y ps acc = acc ++ write y ps := by
  have key : ∀ (ps : List (Piece ν)) (acc : String),
      ∃ s, ∀ acc', writeOnto y ps acc' = acc' ++ s := by
    intro ps acc
    fun_induction writeOnto y ps acc with
    | case1 acc => exact ⟨"", fun _ => by simp [writeOnto]⟩
    | case2 s pending acc ih =>
      obtain ⟨r, h⟩ := ih
      exact ⟨s ++ r, fun _ => by simp [writeOnto, h, String.append_assoc]⟩
    | case3 t pending acc ih =>
      obtain ⟨r, h⟩ := ih
      exact ⟨r, fun _ => by rw [writeOnto, h]⟩
  obtain ⟨s, h⟩ := key ps acc
  simp [write, h]

@[simp] theorem write_nil (y : Style ν) : write y ([] : List (Piece ν)) = "" := by
  simp [write, writeOnto]

@[simp] theorem write_text (y : Style ν) (s : String) (ps : List (Piece ν)) :
    write y (.text s :: ps) = s ++ write y ps := by
  rw [write, writeOnto, writeOnto_eq]; simp

theorem write_append (y : Style ν) (ps qs : List (Piece ν)) :
    write y (ps ++ qs) = write y ps ++ write y qs := by
  have key : ∀ (ps : List (Piece ν)) (acc : String),
      writeOnto y (ps ++ qs) acc = writeOnto y qs (writeOnto y ps acc) := by
    intro ps acc
    fun_induction writeOnto y ps acc with
    | case1 acc => rfl
    | case2 s pending acc ih => simpa [writeOnto] using ih
    | case3 t pending acc ih => rw [List.cons_append, writeOnto, ← List.append_assoc, ih]
  rw [write, key, writeOnto_eq]
  rfl

@[simp] theorem write_term (y : Style ν) (t : Term ν) (ps : List (Piece ν)) :
    write y (.term t :: ps) = t.render y ++ write y ps :=
  write_append y [.term t] ps

theorem render_eq_write (y : Style ν) (t : Term ν) : t.render y = write y (y.pieces t) := by
  simp [render, writeOnto, write]

/-- The text of an operand that something follows. -/
def renderOperand (y : Style ν) (p : Term ν) : String :=
  if y.guardOperands && p.isGreedy then "(" ++ p.render y ++ ")" else p.render y

@[simp] theorem write_operand (y : Style ν) (p : Term ν) :
    write y (y.operand p) = p.renderOperand y := by
  unfold Style.operand renderOperand
  split <;> simp [String.append_assoc]

theorem render_nil (y : Style ν) : (nil : Term ν).render y = "nil" := by
  simp [render_eq_write, Style.pieces]

theorem render_var (y : Style ν) (x : ν) : (var x).render y = y.spell x := by
  simp [render_eq_write, Style.pieces]

theorem render_act (y : Style ν) (a : ν) (p : Term ν) :
    (act a p).render y = y.spell a ++ "." ++ p.render y := by
  rw [render_eq_write]; simp [Style.pieces, String.append_assoc]

theorem render_fix (y : Style ν) (x : ν) (p : Term ν) :
    (fix x p).render y = "rec " ++ y.spell x ++ ". " ++ p.render y := by
  rw [render_eq_write]; simp [Style.pieces, String.append_assoc]

theorem render_par (y : Style ν) (p q : Term ν) :
    (par p q).render y = "(" ++ p.renderOperand y ++ "|" ++ q.render y ++ ")" := by
  rw [render_eq_write]; simp [Style.pieces, write_append, String.append_assoc]

theorem render_sum (y : Style ν) (p q : Term ν) :
    (sum p q).render y = "(" ++ p.renderOperand y ++ " + " ++ q.render y ++ ")" := by
  rw [render_eq_write]; simp [Style.pieces, write_append, String.append_assoc]

theorem render_res (y : Style ν) (p : Term ν) (a : ν) :
    (res p a).render y = p.renderOperand y ++ "\\" ++ y.spell a := by
  rw [render_eq_write]; simp [Style.pieces, write_append, String.append_assoc]

theorem render_rel (y : Style ν) (p : Term ν) (f : ν) :
    (rel p f).render y = p.renderOperand y ++ "[" ++ y.spell f ++ "]" := by
  rw [render_eq_write]; simp [Style.pieces, write_append, String.append_assoc]

end Term

end Guardedness
